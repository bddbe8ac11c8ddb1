import AdServer.Lib.SortedVector
import AdServer.RequestInfo.RequestProfile
import Mathlib.Data.String.Basic

/-!
# The events of a request

Each event has a function that works on the profile's buffer and fills the
delegate with what is to be processed. An event that comes before the one it
follows waits in a counter of the profile, and the functions call each other when
the one they wait for comes.
-/

namespace AdServer.RequestInfo

inductive ActionType where
  | click
  | action
  | fraudRollback
  deriving DecidableEq

structure MoveActionInfo where
  actionType : ActionType
  time : Time
  deriving DecidableEq

structure RequestProcessDelegate where
  requestInfo : Option RequestInfo := none
  impressionInfo : Option ImpressionInfo := none
  processRequest : Option RequestState := none
  processImpression : Bool := false
  processClick : Bool := false
  processActions : Nat := 0
  /-- Used for the rollbacks instead of `requestInfo` when present. -/
  rollbackRequestInfo : Option RequestInfo := none
  processFraudRequest : Option RequestState := none
  processRollbackImpressions : List RequestState := []
  processRollbackClicks : List RequestState := []
  processPostImpressionActions : List RequestPostActionInfo := []
  moveRequestUserId : UserId := none
  moveRequestProfile : Option RequestProfile := none
  moveNoticeInfo : Option ImpressionInfo := none
  moveImpressionInfo : Option ImpressionInfo := none
  moveActions : List MoveActionInfo := []
  moveImpressionPostActions : List RequestPostActionInfo := []
  deriving DecidableEq

namespace RequestProcessDelegate

def fillRequestInfo (delegate : RequestProcessDelegate) (requestReader : RequestProfile) :
    RequestProcessDelegate :=
  { delegate with
      requestInfo := delegate.requestInfo.or (convertRequestReaderToRequestInfo requestReader) }

def mapRequestInfo (f : RequestInfo → RequestInfo) (delegate : RequestProcessDelegate) :
    RequestProcessDelegate :=
  { delegate with requestInfo := delegate.requestInfo.map f }

def fillRollbackRequestInfo (delegate : RequestProcessDelegate)
    (requestReader : RequestProfile) : RequestProcessDelegate :=
  { delegate with
      rollbackRequestInfo :=
        delegate.rollbackRequestInfo.or (convertRequestReaderToRequestInfo requestReader) }

/-- The duplicates go with the profile as it was saved last. -/
def duplicateImpressions (delegate : RequestProcessDelegate) (requestReader : RequestProfile)
    (count : Nat) : RequestProcessDelegate :=
  if 0 < count then
    let delegate := delegate.fillRollbackRequestInfo requestReader
    { delegate with
        processRollbackImpressions :=
          delegate.processRollbackImpressions ++ List.replicate count .duplicate }
  else delegate

def duplicateClicks (delegate : RequestProcessDelegate) (requestReader : RequestProfile)
    (count : Nat) : RequestProcessDelegate :=
  if 0 < count then
    let delegate := delegate.fillRollbackRequestInfo requestReader
    { delegate with
        processRollbackClicks :=
          delegate.processRollbackClicks ++ List.replicate count .duplicate }
  else delegate

end RequestProcessDelegate

/-- What a function leaves in the buffer and the delegate. -/
structure Processed where
  memBuf : Option RequestProfile
  delegate : RequestProcessDelegate
  saveProfile : Bool
  deriving DecidableEq

namespace Processed

/-- A nested call; the profile is saved if either asked for it. -/
def andThen (processed : Processed)
    (next : Option RequestProfile → RequestProcessDelegate → Processed) : Processed :=
  let result := next processed.memBuf processed.delegate
  { result with saveProfile := processed.saveProfile || result.saveProfile }

end Processed

def processActionBuf (memBuf : Option RequestProfile) (delegate : RequestProcessDelegate)
    (actionTime : Time) (moveEnabled : Bool) : Processed :=
  let stub := { createEmptyStub with
    actionsNonConsidered := 1
    actionTime := Time.seconds actionTime }
  match memBuf with
  | none => ⟨some stub, delegate, true⟩
  | some requestReader =>
    if requestReader.fraud = .moved then
      if moveEnabled then
        ⟨memBuf, { delegate with
          moveRequestUserId := requestReader.userId
          moveActions := delegate.moveActions ++ [⟨.action, actionTime⟩] }, false⟩
      else ⟨some stub, delegate, true⟩
    else
      let requestWriter := { requestReader with actionTime := Time.seconds actionTime }
      if requestReader.clickDone ≠ 0 then
        let delegate := delegate.fillRequestInfo requestReader
        if requestReader.enabledActionTracking then
          ⟨some { requestWriter with actionsDone := requestWriter.actionsDone + 1 },
            { delegate with processActions := delegate.processActions + 1 }, true⟩
        else ⟨some requestWriter, delegate, true⟩
      else
        ⟨some { requestWriter with
          actionsNonConsidered := requestWriter.actionsNonConsidered + 1 }, delegate, true⟩

/-- The actions that waited for the click. -/
def replayActions (moveEnabled : Bool) : Nat → Processed → Processed
  | 0, processed => processed
  | count + 1, processed =>
    replayActions moveEnabled count (processed.andThen fun memBuf delegate =>
      processActionBuf memBuf delegate (delegate.requestInfo.getD {}).actionTime moveEnabled)

/-- The buffer is there whenever duplicates are counted. -/
def processClickBuf (memBuf : Option RequestProfile) (delegate : RequestProcessDelegate)
    (clickTime : Time) (moveEnabled : Bool) : Processed :=
  let stub := { createEmptyStub with
    clickNonConsidered := 1
    clickTime := Time.seconds clickTime }
  match memBuf with
  | none => ⟨some stub, delegate, true⟩
  | some requestReader =>
    if requestReader.fraud = .moved then
      if moveEnabled then
        ⟨memBuf, { delegate with
          moveRequestUserId := requestReader.userId
          moveActions := delegate.moveActions ++ [⟨.click, clickTime⟩] }, false⟩
      else ⟨some stub, delegate, true⟩
    else
      let requestWriter := { requestReader with clickTime := Time.seconds clickTime }
      if requestReader.impressionVerified ≠ 0 then
        let delegate := (delegate.fillRequestInfo requestReader).mapRequestInfo fun info =>
          { info with clickTime := clickTime }
        if requestReader.clickDone = 0 then
          let rollbacks := if requestReader.fraud = .fraud then [RequestState.fraud] else []
          let delegate := { delegate with
            processClick := true
            processRollbackClicks := delegate.processRollbackClicks ++ rollbacks }
          let requestWriter := { requestWriter with
            clickDone := 1
            clickNonConsidered := 0
            actionsNonConsidered := 0 }
          replayActions moveEnabled requestReader.actionsNonConsidered
            ⟨some requestWriter,
              delegate.duplicateClicks requestWriter requestReader.clickNonConsidered, true⟩
        else ⟨memBuf, delegate.duplicateClicks requestReader 1, false⟩
      else
        ⟨some { requestWriter with
          clickNonConsidered := requestWriter.clickNonConsidered + 1 }, delegate, true⟩

def processImpressionPostActionBuf (memBuf : Option RequestProfile)
    (delegate : RequestProcessDelegate) (info : RequestPostActionInfo) (moveEnabled : Bool) :
    Processed :=
  let stub := { createEmptyStub with postImpressionActions := [info.actionName] }
  match memBuf with
  | none => ⟨some stub, delegate, true⟩
  | some requestReader =>
    if requestReader.fraud = .moved then
      if moveEnabled then
        ⟨memBuf, { delegate with
          moveRequestUserId := requestReader.userId
          moveImpressionPostActions := delegate.moveImpressionPostActions ++ [info] }, false⟩
      else ⟨some stub, delegate, true⟩
    else
      let (before, after) := Lib.SortedVector.lowerBound info.actionName requestReader.postImpressionActions
      if after.head? = some info.actionName then ⟨memBuf, delegate, false⟩
      else
        let delegate :=
          if requestReader.impressionVerified ≠ 0 then
            let delegate := delegate.fillRequestInfo requestReader
            { delegate with
                processPostImpressionActions := delegate.processPostImpressionActions ++ [info] }
          else delegate
        ⟨some { requestReader with
          postImpressionActions := before ++ info.actionName :: after }, delegate, true⟩

/-- The actions that waited for the impression. -/
def replayPostActions (moveEnabled : Bool) (processed : Processed) :
    List RequestPostActionInfo → Processed
  | [] => processed
  | info :: rest =>
    replayPostActions moveEnabled (processed.andThen fun memBuf delegate =>
      processImpressionPostActionBuf memBuf delegate info moveEnabled) rest

/-- Another user has seen the impression: the request is rolled back here and goes to
that user with its profile. -/
def moveRequest (requestReader : RequestProfile) (delegate : RequestProcessDelegate)
    (impressionInfo : ImpressionInfo) : Processed :=
  let requestWriter := { requestReader with
    fraud := .moved
    userId := impressionInfo.userId }
  let requestWriter := { convertImpressionInfoToRequestWriter impressionInfo requestWriter false with
    requestDone := 0 }
  ⟨some requestWriter, { delegate with
    requestInfo := some { convertRequestReaderToRequestInfo requestReader with fraud := .resave }
    processFraudRequest := some .moved
    moveRequestUserId := impressionInfo.userId
    moveImpressionInfo := some impressionInfo
    moveRequestProfile := some requestWriter }, true⟩

/-- The impression of a request whose notice was received. -/
def verifyImpression (A : RevenueArithmetic) (requestReader : RequestProfile)
    (delegate : RequestProcessDelegate) (impressionInfo : ImpressionInfo) (moveEnabled : Bool) :
    Processed :=
  let delegate := (delegate.fillRequestInfo requestReader).mapRequestInfo fun info =>
    { info with impTime := impressionInfo.time }
  let requestWriter := { requestReader with
    postImpressionActions := []
    clickNonConsidered := requestReader.clickNonConsidered - 1 }
  let requestWriter :=
    if requestWriter.impressionNonConsidered = 0 then
      convertImpressionInfoToRequestWriter impressionInfo requestWriter false
    else requestWriter
  let (requestWriter, requestInfo) :=
    evalRevenuesOnImpressionFin A requestWriter (delegate.requestInfo.getD {})
  let requestWriter := { requestWriter with
    impressionVerified := 1
    impressionNonConsidered := 0 }
  let delegate := { delegate with
    requestInfo := some requestInfo
    processImpression := true }
  let delegate := delegate.duplicateImpressions requestWriter requestReader.impressionNonConsidered
  let processed : Processed :=
    ⟨some requestWriter, { delegate with impressionInfo := some impressionInfo }, true⟩
  let processed :=
    if 0 < requestReader.clickNonConsidered then
      processed.andThen fun memBuf delegate =>
        processClickBuf memBuf delegate impressionInfo.time moveEnabled
    else processed
  replayPostActions moveEnabled processed
    (requestReader.postImpressionActions.map fun name => ⟨impressionInfo.time, name⟩)

/-- An impression that is counted already, or whose profile has gone. -/
def duplicateImpression (requestReader : RequestProfile) (delegate : RequestProcessDelegate)
    (impressionInfo : ImpressionInfo) (moveEnabled : Bool) : Processed :=
  let delegate :=
    if requestReader.fraud = .moved ∧ moveEnabled then
      { delegate with
          moveRequestUserId := requestReader.userId
          moveImpressionInfo := some impressionInfo }
    else delegate.duplicateImpressions requestReader 1
  ⟨some requestReader,
    if delegate.processImpression then { delegate with impressionInfo := some impressionInfo }
    else delegate, false⟩

def processImpressionBuf (A : RevenueArithmetic) (memBuf : Option RequestProfile)
    (delegate : RequestProcessDelegate) (impressionInfo : ImpressionInfo) (moveEnabled : Bool) :
    Processed :=
  match memBuf with
  | none =>
    ⟨some { convertImpressionInfoToRequestWriter impressionInfo createEmptyStub false with
      impressionNonConsidered := 1 }, delegate, true⟩
  | some requestReader =>
    if requestReader.fraud ≠ .moved ∧ requestReader.impressionVerified = 0 then
      if moveEnabled ∧ requestReader.requestDone ≠ 0 ∧ impressionInfo.userId ≠ none ∧
          impressionInfo.userId ≠ requestReader.userId then
        moveRequest requestReader delegate impressionInfo
      else if requestReader.noticeReceived ≠ 0 then
        verifyImpression A requestReader delegate impressionInfo moveEnabled
      else
        let requestWriter :=
          if requestReader.impressionNonConsidered = 0 then
            convertImpressionInfoToRequestWriter impressionInfo requestReader false
          else requestReader
        ⟨some { requestWriter with
          impressionNonConsidered := requestWriter.impressionNonConsidered + 1 }, delegate, true⟩
    else duplicateImpression requestReader delegate impressionInfo moveEnabled

def processNoticeBuf (A : RevenueArithmetic) (memBuf : Option RequestProfile)
    (delegate : RequestProcessDelegate) (noticeInfo : ImpressionInfo) (moveEnabled : Bool) :
    Processed :=
  let stub := { convertImpressionInfoToRequestWriter noticeInfo createEmptyStub true with
    noticeNonConsidered := 1 }
  match memBuf with
  | none => ⟨some stub, delegate, true⟩
  | some requestReader =>
    if requestReader.fraud = .moved then
      if moveEnabled then
        ⟨memBuf, { delegate with
          moveRequestUserId := requestReader.userId
          moveNoticeInfo := some noticeInfo }, false⟩
      else ⟨some stub, delegate, true⟩
    else if requestReader.requestDone = 0 then
      ⟨some { convertImpressionInfoToRequestWriter noticeInfo requestReader true with
        noticeNonConsidered := 1 }, delegate, true⟩
    else if requestReader.noticeReceived ≠ 0 then ⟨memBuf, delegate, false⟩
    else
      let requestWriter := { convertImpressionInfoToRequestWriter noticeInfo requestReader true with
        impressionNonConsidered := requestReader.impressionNonConsidered - 1
        noticeReceived := 1 }
      let processed : Processed :=
        ⟨some requestWriter, delegate.fillRequestInfo requestReader, true⟩
      if 0 < requestReader.impressionNonConsidered then
        processed.andThen fun memBuf delegate =>
          processImpressionBuf A memBuf delegate
            (convertRequestReaderToImpressionInfo requestReader false) moveEnabled
      else if !requestReader.enabledImpressionTracking then
        processed.andThen fun memBuf delegate =>
          processImpressionBuf A memBuf delegate (fillAutoImpressionInfo requestReader) moveEnabled
      else processed

def processRequestBuf (A : RevenueArithmetic) (memBuf : Option RequestProfile)
    (delegate : RequestProcessDelegate) (requestInfo : RequestInfo) (moveEnabled : Bool) :
    Processed :=
  -- the profile to fill, and the notice that waits in it
  let found : Option (RequestProfile × Option ImpressionInfo) :=
    match memBuf with
    | none => some (clearActionFields {}, none)
    | some requestReader =>
      if requestReader.requestDone = 0 ∧ requestReader.fraud ≠ .moved then
        if requestReader.noticeNonConsidered ≠ 0 then
          some ({ requestReader with noticeNonConsidered := 0 },
            some (convertRequestReaderToImpressionInfo requestReader true))
        else some (requestReader, none)
      else none
  match found with
  | none => ⟨memBuf, delegate, false⟩
  | some (requestWriter, notice) =>
    let requestWriter := convertRequestInfoToRequestWriter requestInfo requestWriter
    let notice :=
      if requestWriter.enabledNotice then notice
      else some { notice.getD {} with time := Time.ofSeconds requestWriter.time }
    let processed : Processed :=
      ⟨some requestWriter, { delegate with
        requestInfo := some requestInfo
        processRequest := some .normal }, true⟩
    match notice with
    | none => processed
    | some noticeInfo =>
      processed.andThen fun memBuf delegate =>
        processNoticeBuf A memBuf delegate noticeInfo moveEnabled

def processFraudRollbackBuf (memBuf : Option RequestProfile) (delegate : RequestProcessDelegate)
    (rollbackTime : Time) : Processed :=
  match memBuf with
  | none => ⟨none, delegate, false⟩
  | some requestReader =>
    if requestReader.fraud = .normal then
      let rollback (done : Nat) : List RequestState := if done ≠ 0 then [.fraud] else []
      let delegate :=
        if requestReader.requestDone ≠ 0 then
          let delegate := delegate.fillRequestInfo requestReader
          { delegate with
              processFraudRequest := some .fraud
              processRollbackImpressions :=
                delegate.processRollbackImpressions ++ rollback requestReader.impressionVerified
              processRollbackClicks :=
                delegate.processRollbackClicks ++ rollback requestReader.clickDone }
        else delegate
      ⟨some { requestReader with
        fraud := .fraud
        fraudTime := Time.seconds rollbackTime }, delegate, true⟩
    else ⟨memBuf, delegate, false⟩

inductive Delivery where
  | request (info : RequestInfo) (state : RequestState)
  | impression (info : RequestInfo) (impressionInfo : ImpressionInfo) (state : RequestState)
  | click (info : RequestInfo) (state : RequestState)
  | action (info : RequestInfo)
  | postAction (info : RequestInfo) (action : RequestPostActionInfo)
  | changeRequestUserId (userId : UserId) (profile : RequestProfile)
  | moveImpression (info : ImpressionInfo)
  | moveAction (userId : UserId) (action : MoveActionInfo)
  | movePostAction (userId : UserId) (action : RequestPostActionInfo)
  deriving DecidableEq

/-- Moves are there only when there is a processor to take them. -/
def delegateProcessing (delegate : RequestProcessDelegate) : List Delivery :=
  let info := delegate.requestInfo.getD {}
  let impressionInfo := delegate.impressionInfo.getD {}
  let rollbackInfo := delegate.rollbackRequestInfo.getD info
  let rollbackInfo := match delegate.processFraudRequest with
    | some state => { rollbackInfo with fraud := state }
    | none => rollbackInfo
  delegate.processRequest.toList.map (Delivery.request info) ++
  (if delegate.processImpression then [.impression info impressionInfo info.fraud] else []) ++
  (if delegate.processClick then [.click info info.fraud] else []) ++
  List.replicate delegate.processActions (.action info) ++
  delegate.processFraudRequest.toList.map (Delivery.request rollbackInfo) ++
  delegate.processRollbackImpressions.map (Delivery.impression rollbackInfo impressionInfo) ++
  delegate.processRollbackClicks.map (Delivery.click rollbackInfo) ++
  delegate.processPostImpressionActions.map (Delivery.postAction info) ++
  delegate.moveRequestProfile.toList.map
    (Delivery.changeRequestUserId delegate.moveRequestUserId) ++
  (delegate.moveNoticeInfo.toList ++ delegate.moveImpressionInfo.toList).map
    (fun moved => Delivery.moveImpression { moved with userId := delegate.moveRequestUserId }) ++
  delegate.moveActions.map (Delivery.moveAction delegate.moveRequestUserId) ++
  delegate.moveImpressionPostActions.map (Delivery.movePostAction delegate.moveRequestUserId)

inductive Event where
  | request (info : RequestInfo)
  | notice (info : ImpressionInfo)
  | impression (info : ImpressionInfo)
  | click (time : Time)
  | action (time : Time)
  | postAction (info : RequestPostActionInfo)
  | fraudRollback (time : Time)
  deriving DecidableEq

def processBuf (A : RevenueArithmetic) (moveEnabled : Bool) (memBuf : Option RequestProfile) :
    Event → Processed
  | .request info => processRequestBuf A memBuf {} info moveEnabled
  | .notice info => processNoticeBuf A memBuf {} info moveEnabled
  | .impression info => processImpressionBuf A memBuf {} info moveEnabled
  | .click time => processClickBuf memBuf {} time moveEnabled
  | .action time => processActionBuf memBuf {} time moveEnabled
  | .postAction info => processImpressionPostActionBuf memBuf {} info moveEnabled
  | .fraudRollback time => processFraudRollbackBuf memBuf {} time

/-- The profile that is stored then, and what was delivered. -/
def processEvent (A : RevenueArithmetic) (moveEnabled : Bool) (profile : Option RequestProfile)
    (event : Event) : Option RequestProfile × List Delivery :=
  let processed := processBuf A moveEnabled profile event
  (if processed.saveProfile then processed.memBuf else profile,
    delegateProcessing processed.delegate)

def processEvents (A : RevenueArithmetic) (moveEnabled : Bool)
    (profile : Option RequestProfile) : List Event → Option RequestProfile × List Delivery
  | [] => (profile, [])
  | event :: rest =>
    let (profile, delivered) := processEvent A moveEnabled profile event
    let (profile, after) := processEvents A moveEnabled profile rest
    (profile, delivered ++ after)

end AdServer.RequestInfo
