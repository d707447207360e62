import SpreadArb.Interact.Pool
import SpreadArb.Market

namespace SpreadArb
open Interact

/-- The atomic steps of `SymbolMap::get_or_insert`. -/
inductive MapOp where
  | lookup (pair : Pair)
  | fetchAdd
  /-- The check of `to_id.entry`, with the insert into a vacant one. -/
  | entry (pair : Pair) (newId : Nat)
  | insertReverse (newId : Nat) (pair : Pair)

abbrev MapOp.Ans : MapOp → Type
  | .lookup _ | .entry .. => Option Nat
  | .fetchAdd => Nat
  | .insertReverse .. => Unit

abbrev mapSig : Sig := ⟨MapOp,MapOp.Ans⟩

/-- The map that the threads share. The ids that losing calls burn are not kept by the code. -/
structure SharedMap extends SymbolMap where
  burnt : List Nat

namespace SharedMap

def new : SharedMap := ⟨.new,[]⟩

/-- Each step on the map is atomic. -/
def machine : Machine mapSig SharedMap where
  serve
    | .lookup pair, s => (s.toId pair,s)
    | .fetchAdd, s => (s.nextId % 2 ^ 32,{ s with nextId := s.nextId+1 })
    | .entry pair newId, s =>
      match s.toId pair with
      | some id => (some id,{ s with burnt := newId :: s.burnt })
      | none => (none,{ s with toId := fun p => if p = pair then some newId else s.toId p })
    | .insertReverse newId pair, s =>
      ((),{ s with fromId := fun i => if i = newId then some pair else s.fromId i })

/-- `SymbolMap::get_or_insert`, step by step. -/
def getOrInsert (pair : Pair) : Prog mapSig Nat := do
  match ← Prog.call (σ := mapSig) (.lookup pair) .ret with
  | some id => pure id
  | none =>
    let newId ← Prog.call (σ := mapSig) .fetchAdd .ret
    match ← Prog.call (σ := mapSig) (.entry pair newId) .ret with
    | some id => pure id
    | none =>
      let _ ← Prog.call (σ := mapSig) (.insertReverse newId pair) .ret
      pure newId

/-- Calls of any number of threads, in any order of their steps. -/
abbrev Calls := Pool Pair mapSig SharedMap Nat

/-- What the calls come to from a new map on. -/
def run (acts : List (Act Pair)) : Calls :=
  Pool.run (fun _ => machine) getOrInsert ⟨.new,[]⟩ acts

end SharedMap

end SpreadArb
