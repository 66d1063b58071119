import Fixpp.Foundation.Machine
import Fixpp.Model.FileStore

/-!
# Calls on one file store, interleaved

The calls on a store take turns where they suspend: behind the leading post, on the writer lock,
while a job is on the pool, and in the visitor of a `retrieve()`. `StoreAction` is what one call
does up to its next suspension. A job works on the file that the store's descriptor names, which
is the replaced log between the rename of a reset and the end of that call.
-/

namespace Fixpp.Model

open Foundation

/-- The reply of a call that fails before it has done anything. -/
def StoreCall.failed (c : StoreCall) (e : Error) : StoreReply :=
  match c with
  | .retrieve .. => .walked [] (.error e)
  | .nextSeqnum .. => .number (.error e)
  | _ => .done (.error e)

/-- The tests of a call before it waits for the lock. -/
def StoreCall.entryTests (c : StoreCall) (openOk : Bool) : Option Error :=
  match c with
  | .retrieve first last _ _ =>
    if !openOk then some .storeIoFailure
    else if first = 0 then some .storeSeqnumInvalid
    else if last ≠ 0 ∧ last < first then some .storeInvalidRange
    else none
  | .resetTo nextIn nextOut =>
    if !resetToTargetsValid nextIn nextOut then some .sessionInvalidArgument
    else if !openOk then some .storeIoFailure
    else none
  | _ => if !openOk then some .storeIoFailure else none

/-- A job on the pool. The one of `next_seqnum()` carries the number it will return. -/
inductive PoolJob
  | store (job : WriteJob)
  | counter (current : ℕ) (job : WriteJob)
  | reset (next : Direction → ℕ)

/-- What a job leaves for its call. `renameDone` is the slot that a reset's job sets. -/
inductive PoolResult
  | store (io : OffloadWriteResult)
  | counter (current : ℕ) (io : OffloadWriteResult)
  | reset (next : Direction → ℕ) (resetOk renameDone : Bool)

inductive CallPhase
  /-- Before the test of `open_ok`. -/
  | called
  | queued
  /-- Holds the lock, its job is on the pool. -/
  | working (job : PoolJob)
  /-- Holds the lock, its job has ended. -/
  | worked (result : PoolResult)
  /-- A `retrieve()` between two frames of its snapshot. -/
  | walking (generation : ℕ) (rest : List IndexEntry) (gap : Bool) (seen : List (ℕ × Bytes))
  /-- A `retrieve()` in its visitor. -/
  | visiting (generation : ℕ) (rest : List IndexEntry) (gap : Bool) (seen : List (ℕ × Bytes))
  | returned

structure SharedStore where
  disk : Disk
  impl : FileStore
  /-- The replaced log, while the descriptor names it. -/
  replaced : Option Bytes := none
  holder : Option ℕ := none
  phase : ℕ → CallPhase := fun _ => .called

inductive StoreAction
  | test (i : ℕ)
  | cancel (i : ℕ)
  | acquire (i : ℕ)
  | run (i : ℕ) (fate : Fate)
  | settle (i : ℕ)
  | walk (i : ℕ)

def StoreAction.call : StoreAction → ℕ
  | .test i => i
  | .cancel i => i
  | .acquire i => i
  | .run i _ => i
  | .settle i => i
  | .walk i => i

namespace SharedStore

variable (cfg : FileStoreConfig) (request : ℕ → StoreCall) (s : SharedStore)

def opened (w : FileWorld) : SharedStore := { disk := w.disk, impl := w.impl }

/-- The file that the descriptor names. -/
def file : Bytes := s.replaced.getD s.disk.log

def write (bytes : Bytes) : SharedStore :=
  match s.replaced with
  | none => { s with disk := { s.disk with log := bytes } }
  | some _ => { s with replaced := some bytes }

def goOn (i : ℕ) (phase : CallPhase) : SharedStore :=
  { s with phase := Function.update s.phase i phase }

def finish (i : ℕ) (reply : StoreReply) : SharedStore × List (ℕ × StoreReply) :=
  (s.goOn i .returned, [(i, reply)])

def offload (i : ℕ) (job : PoolJob) : SharedStore × List (ℕ × StoreReply) :=
  ({ s.goOn i (.working job) with holder := some i }, [])

/-- A call with the lock, up to its job or its return. -/
def enter (i : ℕ) : SharedStore × List (ℕ × StoreReply) :=
  match request i with
  | .store seq frame dir =>
    match s.impl.storeJob cfg seq frame dir with
    | .error e => s.finish i (.done (.error e))
    | .ok job => s.offload i (.store job)
  | .nextSeqnum dir increment =>
    match readCounter (s.impl.next dir) increment with
    | .error e => s.finish i (.number (.error e))
    | .ok current =>
      if increment then
        { s with impl := s.impl.bump dir }.offload i
          (.counter current ((s.impl.bump dir).counterJob cfg))
      else s.finish i (.number (.ok current))
  | .reset => s.offload i (.reset (targets 1 1))
  | .resetTo nextIn nextOut => s.offload i (.reset (targets nextIn nextOut))
  | .retrieve first last dir _ =>
    let found := snapshotRange IndexEntry.seq (s.impl.index dir) (s.impl.next dir) first last
    (s.goOn i (.walking s.impl.generation found.1 found.2 []), [])

def perform (fate : Fate) : PoolJob → SharedStore × PoolResult
  | .store job =>
    let io := job.run s.impl.valid fate.writeFault s.file
    (s.write io.1, .store io.2)
  | .counter current job =>
    let io := job.run s.impl.valid fate.writeFault s.file
    (s.write io.1, .counter current io.2)
  | .reset next =>
    let steps := cfg.resetSteps next
    let done := ({ s with disk := steps.foldl ResetStep.perform s.disk, replaced := some s.file },
      .reset next true true)
    match fate with
    | .resetFails step written =>
      if step < steps.length then
        let renamed : Bool := ResetStep.rename ∈ steps.take step
        ({ s with
            disk := failReset step written s.disk steps
            replaced := if renamed then some s.file else s.replaced },
          .reset next false renamed)
      else done
    | _ => done

/-- A call behind its job: it releases the lock and returns. -/
def conclude (i : ℕ) (result : PoolResult) : SharedStore × List (ℕ × StoreReply) :=
  let s := { s with holder := none }
  match request i, result with
  | .store seq frame dir, .store io =>
    let after := s.impl.storeEnd seq frame dir io
    { s with impl := after.1 }.finish i (.done after.2)
  | .nextSeqnum .., .counter current io =>
    let after := s.impl.counterEnd current io
    { s with impl := after.1 }.finish i (.number after.2)
  | _, .reset next true _ =>
    { s with impl := s.impl.resetDone next, replaced := none }.finish i (.done (.ok ()))
  | _, .reset _ false renameDone =>
    { s with
        impl := s.impl.resetFailed renameDone
        replaced := if renameDone then none else s.replaced }.finish i
      (.done (.error .storeIoFailure))
  | _, _ => (s, [])

/-- A `retrieve()` up to its visitor, and from the visitor's answer on. -/
def walkOn (i : ℕ) (visitor : Visitor) : SharedStore × List (ℕ × StoreReply) :=
  match s.phase i with
  | .walking _ [] gap seen =>
    s.finish i (.walked seen (if gap then .error .storeSeqnumGap else .ok ()))
  | .walking generation (e :: rest) gap seen =>
    match s.impl.readFrame s.file generation e with
    | .error err => s.finish i (.walked seen (.error err))
    | .ok frame => (s.goOn i (.visiting generation rest gap (seen ++ [(e.seq, frame)])), [])
  | .visiting generation rest gap seen =>
    match (visitor seen).ends with
    | some result => s.finish i (.walked seen result)
    | none => (s.goOn i (.walking generation rest gap seen), [])
  | _ => (s, [])

/-- One action. An action that its call is not ready for does nothing. -/
def step (s : SharedStore) : StoreAction → SharedStore × List (ℕ × StoreReply)
  | .test i =>
    match s.phase i with
    | .called =>
      match (request i).entryTests s.impl.openOk with
      | some e => s.finish i ((request i).failed e)
      | none => (s.goOn i .queued, [])
    | _ => (s, [])
  | .cancel i =>
    match s.phase i with
    | .queued => s.finish i ((request i).failed .storeCancelled)
    | _ => (s, [])
  | .acquire i =>
    match s.phase i, s.holder with
    | .queued, none => s.enter cfg request i
    | _, _ => (s, [])
  | .run i fate =>
    match s.phase i with
    | .working job =>
      let out := s.perform cfg fate job
      (out.1.goOn i (.worked out.2), [])
    | _ => (s, [])
  | .settle i =>
    match s.phase i with
    | .worked result => s.conclude request i result
    | _ => (s, [])
  | .walk i =>
    match request i with
    | .retrieve _ _ _ visitor => s.walkOn i visitor
    | _ => (s, [])

end SharedStore

end Fixpp.Model
