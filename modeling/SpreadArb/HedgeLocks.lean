import SpreadArb.Interact.Rest
import SpreadArb.Entry
import Mathlib.Data.Finset.Basic

namespace SpreadArb
open Interact

/-- A `HedgeLock` value, with the number of the task that got it. -/
structure HedgeLock where
  symbol : String
  owner : Nat
deriving DecidableEq

/-- `HEDGE_LOCKS`, and the `HedgeLock` values that are alive. The code does not keep the latter. -/
structure HedgeLocks where
  locks : Finset String
  alive : List HedgeLock

inductive LockAct where
  | acquire (owner : Nat) (symbol : String)
  | drop (lock : HedgeLock)

def LockAct.symbol : LockAct → String
  | .acquire _ symbol => symbol
  | .drop lock => lock.symbol

namespace HedgeLocks

def new : HedgeLocks := ⟨∅,[]⟩

/-- `RaceConditionGuard::try_acquire_hedge_lock`. -/
def tryAcquireHedgeLock (l : HedgeLocks) (owner : Nat) (symbol : String) :
    Except String HedgeLock × HedgeLocks :=
  if symbol ∈ l.locks then (.error s!"Hedge lock already held for {symbol}",l)
  else (.ok ⟨symbol,owner⟩,⟨insert symbol l.locks,⟨symbol,owner⟩ :: l.alive⟩)

/-- `HedgeLock::drop`. Only a value that is alive is dropped. -/
def drop (l : HedgeLocks) (lock : HedgeLock) : HedgeLocks :=
  if lock ∈ l.alive then ⟨l.locks.erase lock.symbol,l.alive.erase lock⟩ else l

def act (l : HedgeLocks) : LockAct → HedgeLocks
  | .acquire owner symbol => (l.tryAcquireHedgeLock owner symbol).2
  | .drop lock => l.drop lock

/-- What the tasks do, in the order in which they get the mutex. -/
def run (l : HedgeLocks) : List LockAct → HedgeLocks
  | [] => l
  | a :: acts => (l.act a).run acts

end HedgeLocks

/-- The hedge locks in front of any backend. -/
def guarded (m : Machine backend W) (caller : Nat) : Machine backend (HedgeLocks × W) where
  serve
    | .tryAcquireHedgeLock symbol, s =>
      ((s.1.tryAcquireHedgeLock caller symbol).1.map (fun _ => ()),
        ((s.1.tryAcquireHedgeLock caller symbol).2,s.2))
    | .dropHedgeLock symbol, s => ((),(s.1.drop ⟨symbol,caller⟩,s.2))
    | op, s => ((m.serve op s.2).1,(s.1,(m.serve op s.2).2))

structure EntryCall where
  opportunity : ArbitrageOpportunity
  availableCapital : ℚ
  positionSize : ℚ

/-- An entry under way. -/
abbrev EntryTask := Call EntryCall backend (Except EntryError PaperTrade)

abbrev EntryPool (W : Type) :=
  Pool EntryCall backend (HedgeLocks × W) (Except EntryError PaperTrade)

/-- What the entry does. -/
def EntryCall.program (c : EntryCall) : Prog backend (Except EntryError PaperTrade) :=
  (executeAtomicEntryReal c.opportunity c.availableCapital c.positionSize).run

/-- Entries that run at the same time, in any order of their requests. -/
def EntryPool.run (m : Nat → Machine backend W) (w : W) (acts : List (Act EntryCall)) :
    EntryPool W :=
  Pool.run (fun n => guarded (m n) n) EntryCall.program ⟨(.new,w),[]⟩ acts

/-- The request has to do with the hedge locks. -/
def BackendOp.locks : BackendOp → Bool
  | .tryAcquireHedgeLock _ | .dropHedgeLock _ => true
  | _ => false

/-- The code between a taken hedge lock and the end of its scope: the hedge of the polling loop, and
the hedge after the loop, of the leg opposite to `side`. -/
inductive HedgeWork (opportunity : ArbitrageOpportunity) : {α : Type} → Entry α → Prop
  | inLoop (side : OrderSide) (quantity : ℚ) (legs : Legs) :
    HedgeWork opportunity (hedgeInLoop opportunity side quantity legs)
  | afterLoop (side : OrderSide) (quantity : ℚ) (legs : Legs) :
    HedgeWork opportunity (do
      let legs ← depthGate opportunity side quantity legs
      completeHedge opportunity side quantity legs)

/-- The entry came to a hedge and has not finished it: of the hedge there is a request left to be
made, and `done` is what comes after the hedge. -/
def InSection (c : EntryCall) (rest : Prog backend (Except EntryError PaperTrade)) : Prop :=
  ∃ (α : Type) (work : Entry α) (done : Except EntryError α →
    Prog backend (Except EntryError PaperTrade))
    (op : BackendOp) (next : BackendOp.Ans op → Prog backend (Except EntryError α)),
    HedgeWork c.opportunity work ∧ c.program.After (work.run >>= done) ∧
    work.run.After (.call op next) ∧ rest = .call op next >>= done

end SpreadArb
