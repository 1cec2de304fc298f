import Mathlib

/-! The state of `HardFork` (`cryptonote_basic/hardfork.cpp`): the fork schedule kept by
`add_fork`, the rolling window of block votes with its per-version tally, and the part of
the block database it reads and writes. Block heights and the `uint64_t` window size are
natural numbers; the tally keeps the `unsigned int` arithmetic of `last_versions`. -/

namespace PepePrivate.Hardfork

/-- A block as the hard-fork code reads it. -/
structure Block where
  majorVersion : UInt8
  minorVersion : UInt8
  deriving Repr, DecidableEq

/-- Blocks from before voting carry minor version 0, which counts as a vote for 1. -/
def getBlockVote (b : Block) : UInt8 :=
  if b.minorVersion = 0 then 1 else b.minorVersion

def getBlockVersion (b : Block) : UInt8 := b.majorVersion

structure Params where
  version : UInt8
  threshold : UInt8
  height : Nat
  time : Int
  deriving Repr, DecidableEq

/-- The order `add_fork` demands between a fork and the one scheduled before it. -/
def ForkOrder (a b : Params) : Prop :=
  a.version < b.version ∧ a.height < b.height ∧ a.time < b.time

theorem ForkOrder.trans {a b c : Params} (hab : ForkOrder a b) (hbc : ForkOrder b c) :
    ForkOrder a c :=
  ⟨UInt8.lt_trans hab.1 hbc.1, hab.2.1.trans hbc.2.1, hab.2.2.trans hbc.2.2⟩

instance : Trans ForkOrder ForkOrder ForkOrder := ⟨ForkOrder.trans⟩

/-- The tables `BlockchainDB` keeps that the hard-fork code touches: the main chain and
`hf_versions`, the version recorded for each height. Rows of `hf_versions` are never
deleted when blocks are removed. -/
structure BlockchainDB where
  blocks : List Block
  hfVersions : Nat → Option UInt8

namespace BlockchainDB

def height (db : BlockchainDB) : Nat := db.blocks.length

/-- A missing row makes the LMDB lookup throw. -/
def getHardForkVersion (db : BlockchainDB) (height : Nat) : Option UInt8 :=
  db.hfVersions height

def setHardForkVersion (db : BlockchainDB) (height : Nat) (version : UInt8) : BlockchainDB :=
  { db with hfVersions := fun h => if h = height then some version else db.hfVersions h }

def addBlock (db : BlockchainDB) (b : Block) : BlockchainDB :=
  { db with blocks := db.blocks ++ [b] }

/-- Removes the top `n` blocks; `hf_versions` keeps its rows. -/
def removeBlocks (db : BlockchainDB) (n : Nat) : BlockchainDB :=
  { db with blocks := db.blocks.take (db.height - n) }

def empty : BlockchainDB := ⟨[], fun _ => none⟩

@[simp] theorem height_addBlock (db : BlockchainDB) (b : Block) :
    (db.addBlock b).height = db.height + 1 := by
  simp [addBlock, height]

@[simp] theorem height_removeBlocks (db : BlockchainDB) (n : Nat) :
    (db.removeBlocks n).height = db.height - n := by
  simp [removeBlocks, height]

@[simp] theorem height_setHardForkVersion (db : BlockchainDB) (h : Nat) (v : UInt8) :
    (db.setHardForkVersion h v).height = db.height := rfl

@[simp] theorem blocks_setHardForkVersion (db : BlockchainDB) (h : Nat) (v : UInt8) :
    (db.setHardForkVersion h v).blocks = db.blocks := rfl

@[simp] theorem blocks_addBlock (db : BlockchainDB) (b : Block) :
    (db.addBlock b).blocks = db.blocks ++ [b] := rfl

@[simp] theorem hfVersions_addBlock (db : BlockchainDB) (b : Block) :
    (db.addBlock b).hfVersions = db.hfVersions := rfl

@[simp] theorem hfVersions_removeBlocks (db : BlockchainDB) (n : Nat) :
    (db.removeBlocks n).hfVersions = db.hfVersions := rfl

@[simp] theorem getHardForkVersion_set (db : BlockchainDB) (h k : Nat) (v : UInt8) :
    (db.setHardForkVersion h v).getHardForkVersion k =
      if k = h then some v else db.getHardForkVersion k := rfl

@[simp] theorem getHardForkVersion_addBlock (db : BlockchainDB) (b : Block) (k : Nat) :
    (db.addBlock b).getHardForkVersion k = db.getHardForkVersion k := rfl

@[simp] theorem getHardForkVersion_removeBlocks (db : BlockchainDB) (n k : Nat) :
    (db.removeBlocks n).getHardForkVersion k = db.getHardForkVersion k := rfl

@[simp] theorem height_empty : empty.height = 0 := rfl

end BlockchainDB

/-- A `HardFork` object. The constructor refuses a zero window and a default threshold
above 100, and `add_fork` only appends forks that are later than the last one in version,
height and time, with a threshold of at most 100: the last three fields record this. -/
structure HardFork where
  windowSize : Nat
  defaultThresholdPercent : UInt8
  originalVersion : UInt8
  heights : List Params
  versions : List UInt8
  lastVersions : UInt8 → UInt32
  currentForkIndex : Nat
  windowSize_pos : 0 < windowSize
  heights_ordered : heights.IsChain ForkOrder
  heights_threshold : ∀ p ∈ heights, p.threshold ≤ 100

namespace HardFork

/-- `HardFork::HardFork`; `last_versions` is left for `init` to clear. -/
def new (originalVersion : UInt8) (windowSize : Nat) (defaultThresholdPercent : UInt8) :
    Option HardFork :=
  if hw : windowSize = 0 then none
  else if ht : defaultThresholdPercent > 100 then none
  else some
    { windowSize, defaultThresholdPercent, originalVersion
      heights := [], versions := [], lastVersions := fun _ => 0, currentForkIndex := 0
      windowSize_pos := Nat.pos_of_ne_zero hw
      heights_ordered := .nil
      heights_threshold := by simp }

theorem isChain_append_fork {hs : List Params} {p : Params} (h : hs.IsChain ForkOrder)
    (hp : ∀ last ∈ hs.getLast?, ForkOrder last p) : (hs ++ [p]).IsChain ForkOrder :=
  h.append (.singleton p) (fun x hx y hy => by simp at hy; exact hy ▸ hp x hx)

def pushFork (hf : HardFork) (p : Params) (hp : ∀ last ∈ hf.heights.getLast?, ForkOrder last p)
    (ht : p.threshold ≤ 100) : HardFork :=
  { hf with
    heights := hf.heights ++ [p]
    heights_ordered := isChain_append_fork hf.heights_ordered hp
    heights_threshold := by
      intro q hq
      rcases List.mem_append.mp hq with hq | hq
      · exact hf.heights_threshold q hq
      · simp at hq; exact hq ▸ ht }

theorem forkOrder_of_not_stale {hs : List Params} {p : Params}
    (h : ¬ (hs.getLast?.any fun last =>
      p.version ≤ last.version || p.height ≤ last.height || decide (p.time ≤ last.time))) :
    ∀ last ∈ hs.getLast?, ForkOrder last p := by
  intro last hl
  simp only [Option.mem_def] at hl
  simp only [hl, Option.any_some, Bool.or_eq_true, decide_eq_true_eq, not_or, UInt8.not_le,
    Nat.not_le, Int.not_le] at h
  exact ⟨h.1.1, h.1.2, h.2⟩

/-- `add_fork(version, height, threshold, time)`; `none` is a refused fork. -/
def addFork (hf : HardFork) (version : UInt8) (height : Nat) (threshold : UInt8) (time : Int) :
    Option HardFork :=
  if version = 0 then none
  else if hs : (hf.heights.getLast?.any fun last =>
      version ≤ last.version || height ≤ last.height || decide (time ≤ last.time)) then none
  else if ht : threshold > 100 then none
  else some (hf.pushFork ⟨version, threshold, height, time⟩ (forkOrder_of_not_stale hs)
    (Nat.le_of_not_lt ht))

/-- The two-argument `add_fork` uses the default threshold. -/
def addForkDefault (hf : HardFork) (version : UInt8) (height : Nat) (time : Int) :
    Option HardFork :=
  hf.addFork version height hf.defaultThresholdPercent time

/-- The `add_fork` loop of `Blockchain::init`, which does not look at what `add_fork`
returns: a refused fork is skipped. -/
def addForks (hf : HardFork) : List Params → HardFork
  | [] => hf
  | p :: ps => ((hf.addFork p.version p.height p.threshold p.time).getD hf).addForks ps

def forkAt (hf : HardFork) (n : Nat) : Params := hf.heights.getD n ⟨0, 0, 0, 0⟩

def currentParams (hf : HardFork) : Params := hf.forkAt hf.currentForkIndex

def getEffectiveVersion (hf : HardFork) (votingVersion : UInt8) : UInt8 :=
  match hf.heights.getLast? with
  | some last => if votingVersion > last.version then last.version else votingVersion
  | none => votingVersion

def doCheck (hf : HardFork) (blockVersion votingVersion : UInt8) : Bool :=
  blockVersion = hf.currentParams.version && votingVersion ≥ hf.currentParams.version

def voteThreshold (hf : HardFork) (p : Params) : UInt32 :=
  (((hf.windowSize * p.threshold.toNat) % 2 ^ 64 + 99) % 2 ^ 64 / 100 : Nat).toUInt32

def votedForkIndexLoop (hf : HardFork) (height : Nat) : Nat → UInt32 → Nat
  | 0, _ => hf.currentForkIndex
  | n + 1, acc =>
    let p := hf.forkAt (n + 1)
    let acc := acc + hf.lastVersions p.version
    if height ≥ p.height && acc ≥ hf.voteThreshold p then n + 1
    else hf.votedForkIndexLoop height n acc

def getVotedForkIndex (hf : HardFork) (height : Nat) : Nat :=
  hf.votedForkIndexLoop height (hf.heights.length - 1) 0

def idealVersionLoop (hf : HardFork) (height : Nat) : Nat → UInt8
  | 0 => hf.originalVersion
  | n + 1 => if height ≥ (hf.forkAt (n + 1)).height then (hf.forkAt (n + 1)).version
    else hf.idealVersionLoop height n

def getIdealVersion (hf : HardFork) (height : Nat) : UInt8 :=
  hf.idealVersionLoop height (hf.heights.length - 1)

/-- `mainnet_hard_forks`; the testnet and stagenet tables are the same. -/
def mainnetHardForks : List Params :=
  [{ version := 1, height := 0, threshold := 0, time := 1710959452 },
   { version := 15, height := 1, threshold := 0, time := 2026517452 },
   { version := 16, height := 235000, threshold := 0, time := 2152747852 }]

def mainnet : Option HardFork :=
  (new 1 10080 80).map fun hf => hf.addForks mainnetHardForks

end HardFork

end PepePrivate.Hardfork
