import PepePrivate.Hardfork.Basic
import PepePrivate.Library.Tally

/-! The operations of `HardFork` that move the voting window: `add`, `init` with
`rescan_from_block_height`, `reorganize_from_block_height` and `on_block_popped`. A result
`none` stands for what the source cannot survive: a failed `assert`, a counter unbumped
from zero (it would wrap), `back()` of an empty window, or a `hf_versions` row that the
database does not have (the lookup throws). -/

namespace PepePrivate.Hardfork

open Tally

def trimWindow (windowSize : Nat) :
    List UInt8 → (UInt8 → UInt32) → Option (List UInt8 × (UInt8 → UInt32))
  | [], c => some ([], c)
  | v :: vs, c =>
    if windowSize ≤ vs.length + 1 then
      if 1 ≤ c v then trimWindow windowSize vs (unbump c v) else none
    else some (v :: vs, c)

def popStep (db : BlockchainDB) (height : Nat) (vs : List UInt8) (c : UInt8 → UInt32) :
    Option (List UInt8 × (UInt8 → UInt32)) :=
  match vs.getLast? with
  | none => none
  | some v =>
    if 1 ≤ c v then
      (db.getHardForkVersion height).map fun w => (w :: vs.dropLast, bump (unbump c v) w)
    else none

def popLoop (db : BlockchainDB) : Nat → Nat → List UInt8 → (UInt8 → UInt32) →
    Option (List UInt8 × (UInt8 → UInt32))
  | 0, _, vs, c => some (vs, c)
  | k + 1, height, vs, c =>
    match popStep db height vs c with
    | none => none
    | some (vs, c) => popLoop db k (height - 1) vs c

namespace HardFork

def withWindow (hf : HardFork) (vs : List UInt8) (c : UInt8 → UInt32) : HardFork :=
  { hf with versions := vs, lastVersions := c }

def pushVotes (hf : HardFork) (vs : List UInt8) : HardFork :=
  hf.withWindow (hf.versions ++ vs) (vs.foldl bump hf.lastVersions)

def clearWindow (hf : HardFork) : HardFork :=
  hf.withWindow [] fun _ => 0

def setForkIndex (hf : HardFork) (n : Nat) : HardFork :=
  { hf with currentForkIndex := n }

def raiseToVoted (hf : HardFork) (height : Nat) : HardFork :=
  let voted := hf.getVotedForkIndex height % 256
  if voted > hf.currentForkIndex then hf.setForkIndex voted else hf

def effectiveVotes (hf : HardFork) (blocks : List Block) : List UInt8 :=
  blocks.map fun b => hf.getEffectiveVersion (getBlockVote b)

/-- `add(block_version, voting_version, height)`. -/
def add (hf : HardFork) (db : BlockchainDB) (blockVersion votingVersion : UInt8) (height : Nat) :
    Option (Bool × HardFork × BlockchainDB) :=
  if !hf.doCheck blockVersion votingVersion then some (false, hf, db)
  else
    let db := db.setHardForkVersion height hf.currentParams.version
    let votingVersion := hf.getEffectiveVersion votingVersion
    match trimWindow hf.windowSize hf.versions hf.lastVersions with
    | none => none
    | some (vs, c) =>
      some (true, ((hf.withWindow vs c).pushVotes [votingVersion]).raiseToVoted (height + 1), db)

def addBlock (hf : HardFork) (db : BlockchainDB) (b : Block) (height : Nat) :
    Option (Bool × HardFork × BlockchainDB) :=
  hf.add db (getBlockVersion b) (getBlockVote b) height

def rescanForkIndex (hf : HardFork) (lastv : UInt8) : Nat :=
  hf.heights.dropLast.findIdx fun p => p.version == lastv

def rescanFromBlockHeight (hf : HardFork) (db : BlockchainDB) (height : Nat) :
    Option (Bool × HardFork) :=
  if height ≥ db.height then some (false, hf)
  else
    let hf := hf.clearWindow.pushVotes (hf.effectiveVotes (db.blocks.drop height))
    match db.getHardForkVersion (db.height - 1) with
    | none => none
    | some lastv => some (true, (hf.setForkIndex (hf.rescanForkIndex lastv)).raiseToVoted db.height)

def rescanFromChainHeight (hf : HardFork) (db : BlockchainDB) (height : Nat) :
    Option (Bool × HardFork) :=
  if height = 0 then some (false, hf) else hf.rescanFromBlockHeight db (height - 1)

def withPlaceholder (hf : HardFork) : HardFork :=
  if h : hf.heights = [] then
    hf.pushFork ⟨hf.originalVersion, 0, 0, 0⟩ (by simp [h]) (by simp)
  else hf

def initHeight (windowSize chainHeight : Nat) : Nat :=
  if chainHeight > windowSize then chainHeight - (windowSize - 1) else 1

def init (hf : HardFork) (db : BlockchainDB) : Option HardFork :=
  let hf := (hf.withPlaceholder.clearWindow).setForkIndex 0
  (hf.rescanFromChainHeight db (initHeight hf.windowSize db.height)).map Prod.snd

def walkDown (hf : HardFork) (startVersion : UInt8) : Nat → Nat
  | 0 => 0
  | n + 1 => if (hf.forkAt (n + 1)).version > startVersion then hf.walkDown startVersion n
    else n + 1

def replayAdds (hf : HardFork) (db : BlockchainDB) (height : Nat) :
    List Block → Option (HardFork × BlockchainDB)
  | [] => some (hf, db)
  | b :: bs =>
    match hf.addBlock db b height with
    | none => none
    | some (_, hf', db') => hf'.replayAdds db' (height + 1) bs

def rescanHeight (windowSize height : Nat) : Nat :=
  if height ≥ windowSize - 1 then height - (windowSize - 1) else 0

def reorganizeStartVersion (hf : HardFork) (db : BlockchainDB) (height : Nat) : Option UInt8 :=
  if height = 0 then some hf.originalVersion else db.getHardForkVersion height

def rebuildTo (hf : HardFork) (db : BlockchainDB) (height : Nat) (startVersion : UInt8) :
    HardFork :=
  let hf := hf.setForkIndex (hf.walkDown startVersion hf.currentForkIndex)
  let hf := hf.pushVotes
    (hf.effectiveVotes ((db.blocks.take (height + 1)).drop (rescanHeight hf.windowSize height)))
  hf.raiseToVoted (height + 1)

def reorganizeFromBlockHeight (hf : HardFork) (db : BlockchainDB) (height : Nat) :
    Option (Bool × HardFork × BlockchainDB) :=
  if height ≥ db.height then some (false, hf, db)
  else
    let hf := hf.clearWindow
    match hf.reorganizeStartVersion db height with
    | none => none
    | some startVersion =>
      ((hf.rebuildTo db height startVersion).replayAdds db (height + 1)
        (db.blocks.drop (height + 1))).map fun r => (true, r)

def reorganizeFromChainHeight (hf : HardFork) (db : BlockchainDB) (height : Nat) :
    Option (Bool × HardFork × BlockchainDB) :=
  if height = 0 then some (false, hf, db) else hf.reorganizeFromBlockHeight db (height - 1)

def poppedForkIndex (hf : HardFork) (height : Nat) : Nat → Nat
  | 0 => 0
  | n + 1 => if height ≥ (hf.forkAt (n + 1)).height then n + 1 else hf.poppedForkIndex height n

/-- `on_block_popped(nblocks)`, called once the database has dropped `nblocks` blocks. At a
new chain height of 0 the `uint64_t` loop `height >= new_chain_height` never ends. -/
def onBlockPopped (hf : HardFork) (db : BlockchainDB) (nblocks : Nat) : Option HardFork :=
  if nblocks = 0 then none
  else if db.height = 0 then none
  else
    match popLoop db nblocks (db.height + nblocks - 1) hf.versions hf.lastVersions with
    | none => none
    | some (vs, c) =>
      some ((hf.withWindow vs c).setForkIndex
        (hf.poppedForkIndex db.height (hf.heights.length - 1)))

end HardFork

end PepePrivate.Hardfork
