import Mathlib

/-! Amounts in cryptonote_format_utils: how decompose_amount_into_digits splits an amount into
digit chunks and dust, and the decimal text of print_money and parse_amount. -/

namespace PepePrivate.Basic

/-! ### decompose_amount_into_digits -/

inductive DecomposeCall
  | chunk (amount : UInt64)
  | dust (amount : UInt64)
  deriving DecidableEq, Repr

def DecomposeCall.amount : DecomposeCall → UInt64
  | .chunk a => a
  | .dust a => a

def DecomposeCall.isDust : DecomposeCall → Bool
  | .chunk _ => false
  | .dust _ => true

def DecomposeCall.chunk? : DecomposeCall → Option UInt64
  | .chunk a => some a
  | .dust _ => none

/-- The while loop of decompose_amount_into_digits: the handler calls it makes, then dust and
is_dust_handled once amount reaches 0. -/
def decomposeLoop (dustThreshold : UInt64) (amount dust order : UInt64) (isDustHandled : Bool) :
    List DecomposeCall × UInt64 × Bool :=
  if _h : amount = 0 then ([], dust, isDustHandled)
  else
    let chunk := amount % 10 * order
    if dust + chunk ≤ dustThreshold then
      decomposeLoop dustThreshold (amount / 10) (dust + chunk) (order * 10) isDustHandled
    else
      let (dustCalls, isDustHandled) :=
        if !isDustHandled && dust != 0 then ([DecomposeCall.dust dust], true)
        else ([], isDustHandled)
      let chunkCalls := if chunk != 0 then [DecomposeCall.chunk chunk] else []
      let rest := decomposeLoop dustThreshold (amount / 10) dust (order * 10) isDustHandled
      (dustCalls ++ chunkCalls ++ rest.1, rest.2)
termination_by amount.toNat
decreasing_by
  all_goals
    rw [UInt64.toNat_div]
    have : 0 < amount.toNat := UInt64.lt_iff_toNat_lt.mp (UInt64.pos_iff_ne_zero.mpr _h)
    simp only [UInt64.reduceToNat]
    omega

/-- decompose_amount_into_digits as the sequence of handler calls it makes. -/
def decomposeAmountIntoDigits (amount dustThreshold : UInt64) : List DecomposeCall :=
  if amount = 0 then []
  else
    let r := decomposeLoop dustThreshold amount 0 1 false
    r.1 ++ if !r.2.2 && r.2.1 != 0 then [DecomposeCall.dust r.2.1] else []

/-- valid_decomposed_outputs: every digit 1..9 times 10^0 .. 10^18, and 10^19. -/
def validDecomposedOutputs : List UInt64 :=
  (List.range 19).flatMap (fun k => (List.range' 1 9).map fun d => (d * 10 ^ k).toUInt64) ++
    [10000000000000000000]

/-- is_valid_decomposed_amount: std::binary_search over the ascending table, that is
membership. -/
def isValidDecomposedAmount (amount : UInt64) : Bool :=
  validDecomposedOutputs.contains amount

theorem isValidDecomposedAmount_of_digit {c : UInt64} {d k : Nat} (h1 : 1 ≤ d) (h9 : d ≤ 9)
    (hc : c.toNat = d * 10 ^ k) : isValidDecomposedAmount c = true := by
  have hlt : d * 10 ^ k < 2 ^ 64 := hc ▸ c.toNat_lt
  have hpow : 10 ^ k ≤ d * 10 ^ k := Nat.le_mul_of_pos_left _ h1
  have hk : k ≤ 19 := by
    by_contra hk
    have : 10 ^ 20 ≤ 10 ^ k := Nat.pow_le_pow_right (by norm_num) (by omega)
    omega
  have hc' : (d * 10 ^ k).toUInt64 = c := by
    rw [← hc, Nat.toUInt64_eq, UInt64.ofNat_toNat]
  rw [isValidDecomposedAmount, validDecomposedOutputs, List.contains_iff_mem]
  rcases Nat.lt_or_ge k 19 with hk19 | hk19
  · apply List.mem_append_left
    exact List.mem_flatMap.mpr ⟨k, List.mem_range.mpr hk19,
      List.mem_map.mpr ⟨d, List.mem_range'_1.mpr ⟨h1, by omega⟩, hc'⟩⟩
  · obtain rfl : k = 19 := by omega
    obtain rfl : d = 1 := by omega
    apply List.mem_append_right
    rw [← hc']
    decide

/-- What decompose_amount_into_digits promises of the calls it makes for an amount and a dust
threshold: dust at most once and within the threshold, nothing lost, and chunks that are single
digits of increasing powers of ten. -/
structure DecomposeSpec (amount dustThreshold : UInt64) (calls : List DecomposeCall) : Prop where
  dust_once : (calls.filter DecomposeCall.isDust).length ≤ 1
  dust_le : ∀ d, DecomposeCall.dust d ∈ calls → d ≤ dustThreshold
  sum_eq : (calls.map fun c => c.amount.toNat).sum = amount.toNat
  chunk_digit : ∀ c, DecomposeCall.chunk c ∈ calls → ∃ d k, 1 ≤ d ∧ d ≤ 9 ∧ c.toNat = d * 10 ^ k
  chunk_valid : ∀ c, DecomposeCall.chunk c ∈ calls → isValidDecomposedAmount c = true
  chunks_increasing :
    ((calls.filterMap DecomposeCall.chunk?).map fun c => Nat.log 10 c.toNat).Pairwise (· < ·)

section Loop

variable {t amount dust order : UInt64} {isDustHandled : Bool}

theorem decomposeLoop_zero (t dust order : UInt64) (isDustHandled : Bool) :
    decomposeLoop t 0 dust order isDustHandled = ([], dust, isDustHandled) := by
  rw [decomposeLoop, dif_pos rfl]

theorem decomposeLoop_fits (h : amount ≠ 0) (hfit : dust + amount % 10 * order ≤ t) :
    decomposeLoop t amount dust order isDustHandled =
      decomposeLoop t (amount / 10) (dust + amount % 10 * order) (order * 10) isDustHandled := by
  rw [decomposeLoop, dif_neg h, if_pos hfit]

theorem decomposeLoop_emit (h : amount ≠ 0) (hfit : ¬dust + amount % 10 * order ≤ t) :
    decomposeLoop t amount dust order isDustHandled =
      let rest := decomposeLoop t (amount / 10) dust (order * 10) (isDustHandled || dust != 0)
      ((if !isDustHandled && dust != 0 then [DecomposeCall.dust dust] else []) ++
        (if amount % 10 * order != 0 then [DecomposeCall.chunk (amount % 10 * order)] else []) ++
        rest.1, rest.2) := by
  rw [decomposeLoop, dif_neg h, if_neg hfit]
  by_cases hd : dust = 0
  · cases isDustHandled <;> simp [hd]
  · have hb : (dust != 0) = true := bne_iff_ne.mpr hd
    cases isDustHandled <;> simp [hb]

theorem div_ten_lt (h : amount ≠ 0) : (amount / 10).toNat < amount.toNat := by
  have hpos : 0 < amount.toNat := UInt64.lt_iff_toNat_lt.mp (UInt64.pos_iff_ne_zero.mpr h)
  rw [UInt64.toNat_div]
  simp only [UInt64.reduceToNat]
  omega

end Loop

/-! ### The loop invariant

After k steps the loop has read the k low digits of the original amount a0: amount is a0 / 10^k
and order is 10^k (modulo 2^64: it wraps only on the step that reads the twentieth digit). -/

theorem lowDigits_succ (a0 k : Nat) :
    a0 % 10 ^ (k + 1) = a0 % 10 ^ k + a0 / 10 ^ k % 10 * 10 ^ k := by
  rw [Nat.mod_pow_succ, Nat.mul_comm]

theorem lowDigits_succ_le (a0 k : Nat) : a0 % 10 ^ (k + 1) ≤ a0 := Nat.mod_le _ _

theorem log_digit_mul_pow {d : Nat} (k : Nat) (h1 : 1 ≤ d) (h9 : d ≤ 9) :
    Nat.log 10 (d * 10 ^ k) = k := by
  rw [Nat.log_eq_iff (Or.inr ⟨by norm_num, by positivity⟩)]
  constructor
  · calc 10 ^ k = 1 * 10 ^ k := (one_mul _).symm
      _ ≤ d * 10 ^ k := Nat.mul_le_mul_right _ h1
  · calc d * 10 ^ k < 10 * 10 ^ k := Nat.mul_lt_mul_of_pos_right (by omega) (by positivity)
      _ = 10 ^ (k + 1) := by ring

section Step

variable {a0 k : Nat} {amount dust order : UInt64}

theorem decompose_next (hamt : amount.toNat = a0 / 10 ^ k) (hord : order.toNat = 10 ^ k % 2 ^ 64) :
    (amount / 10).toNat = a0 / 10 ^ (k + 1) ∧ (order * 10).toNat = 10 ^ (k + 1) % 2 ^ 64 := by
  constructor
  · rw [UInt64.toNat_div, hamt, pow_succ, ← Nat.div_div_eq_div_mul]
    rfl
  · rw [UInt64.toNat_mul, hord, pow_succ, Nat.mod_mul_mod]
    rfl

theorem chunk_toNat (ha0 : a0 < 2 ^ 64) (h : amount ≠ 0) (hamt : amount.toNat = a0 / 10 ^ k)
    (hord : order.toNat = 10 ^ k % 2 ^ 64) :
    (amount % 10 * order).toNat = a0 / 10 ^ k % 10 * 10 ^ k := by
  have hpos : 0 < amount.toNat := UInt64.lt_iff_toNat_lt.mp (UInt64.pos_iff_ne_zero.mpr h)
  have hle : 10 ^ k ≤ a0 := by
    by_contra hlt
    rw [Nat.div_eq_of_lt (by omega)] at hamt
    omega
  have hdigit : a0 / 10 ^ k % 10 * 10 ^ k ≤ a0 := calc
    a0 / 10 ^ k % 10 * 10 ^ k ≤ a0 / 10 ^ k * 10 ^ k := Nat.mul_le_mul_right _ (Nat.mod_le _ _)
    _ ≤ a0 := Nat.div_mul_le_self _ _
  rw [UInt64.toNat_mul, UInt64.toNat_mod, hamt, hord, Nat.mod_eq_of_lt (by omega : 10 ^ k < 2 ^ 64)]
  simp only [UInt64.reduceToNat]
  exact Nat.mod_eq_of_lt (by omega)

theorem dust_add_chunk_toNat {chunk : UInt64} (ha0 : a0 < 2 ^ 64)
    (hchunk : chunk.toNat = a0 / 10 ^ k % 10 * 10 ^ k) (hdust : dust.toNat ≤ a0 % 10 ^ k) :
    (dust + chunk).toNat = dust.toNat + chunk.toNat := by
  have hlow := lowDigits_succ a0 k
  have hle := lowDigits_succ_le a0 k
  rw [UInt64.toNat_add]
  exact Nat.mod_eq_of_lt (by omega)

end Step

theorem mem_chunks_iff {c : UInt64} {calls : List DecomposeCall} :
    c ∈ calls.filterMap DecomposeCall.chunk? ↔ DecomposeCall.chunk c ∈ calls := by
  rw [List.mem_filterMap]
  constructor
  · rintro ⟨call, hmem, hcall⟩
    cases call with
    | chunk a =>
      cases hcall
      exact hmem
    | dust a => cases hcall
  · intro hmem
    exact ⟨_, hmem, rfl⟩

theorem mem_dusts_iff {d : UInt64} {calls : List DecomposeCall} :
    DecomposeCall.dust d ∈ calls.filter DecomposeCall.isDust ↔ DecomposeCall.dust d ∈ calls := by
  simp [DecomposeCall.isDust]

/-- What the loop keeps after reading the k low digits of a0 against the threshold t: the calls
so far and the dust still held add up to those digits, the dust stays within the threshold,
once handled it is the one dust call and no later digit can join it, and the chunks are digits
below 10^k in increasing powers. -/
structure DecomposeInv (a0 t k : Nat) (calls : List DecomposeCall) (dust : UInt64)
    (isDustHandled : Bool) : Prop where
  sum_eq : (calls.map fun c => c.amount.toNat).sum + (if isDustHandled then 0 else dust.toNat) =
    a0 % 10 ^ k
  dust_le_low : dust.toNat ≤ a0 % 10 ^ k
  dust_le : dust.toNat ≤ t
  dusts : calls.filter DecomposeCall.isDust = if isDustHandled then [.dust dust] else []
  handled : isDustHandled = true → t < dust.toNat + 10 ^ k
  chunk_digit : ∀ c ∈ calls.filterMap DecomposeCall.chunk?,
    ∃ d j, 1 ≤ d ∧ d ≤ 9 ∧ j < k ∧ c.toNat = d * 10 ^ j
  chunks_increasing :
    ((calls.filterMap DecomposeCall.chunk?).map fun c => Nat.log 10 c.toNat).Pairwise (· < ·)

section Invariant

variable {a0 t k : Nat} {calls : List DecomposeCall} {dust chunk : UInt64} {isDustHandled : Bool}

theorem decomposeInv_init (a0 t : Nat) : DecomposeInv a0 t 0 [] 0 false where
  sum_eq := by simp [Nat.mod_one]
  dust_le_low := by simp
  dust_le := by simp
  dusts := rfl
  handled := by simp
  chunk_digit := by simp
  chunks_increasing := List.Pairwise.nil

theorem DecomposeInv.chunk_digit_succ (hinv : DecomposeInv a0 t k calls dust isDustHandled) :
    ∀ c ∈ calls.filterMap DecomposeCall.chunk?,
      ∃ d j, 1 ≤ d ∧ d ≤ 9 ∧ j < k + 1 ∧ c.toNat = d * 10 ^ j := by
  intro c hc
  obtain ⟨d, j, h1, h9, hj, hcd⟩ := hinv.chunk_digit c hc
  exact ⟨d, j, h1, h9, Nat.lt_succ_of_lt hj, hcd⟩

theorem DecomposeInv.fits (hinv : DecomposeInv a0 t k calls dust isDustHandled)
    (hchunk : chunk.toNat = a0 / 10 ^ k % 10 * 10 ^ k)
    (hsum : (dust + chunk).toNat = dust.toNat + chunk.toNat) (hfit : dust.toNat + chunk.toNat ≤ t) :
    DecomposeInv a0 t (k + 1) calls (dust + chunk) isDustHandled := by
  have hlow := lowDigits_succ a0 k
  cases isDustHandled with
  | true =>
    have hdigit : a0 / 10 ^ k % 10 = 0 := by
      have hlt := hinv.handled rfl
      by_contra hne
      have : 10 ^ k ≤ a0 / 10 ^ k % 10 * 10 ^ k := Nat.le_mul_of_pos_left _ (by omega)
      omega
    have hzero : chunk = 0 := UInt64.toNat_inj.mp (by simp [hchunk, hdigit])
    subst hzero
    rw [hdigit, Nat.zero_mul, Nat.add_zero] at hlow
    have hpow : 10 ^ k ≤ 10 ^ (k + 1) := Nat.pow_le_pow_right (by norm_num) (Nat.le_succ k)
    rw [UInt64.add_zero]
    refine ⟨by simpa [hlow] using hinv.sum_eq, hlow ▸ hinv.dust_le_low, hinv.dust_le, hinv.dusts,
      ?_, hinv.chunk_digit_succ, hinv.chunks_increasing⟩
    intro _
    have := hinv.handled rfl
    omega
  | false =>
    have hsum0 := hinv.sum_eq
    simp only [Bool.false_eq_true, if_false] at hsum0
    refine ⟨?_, ?_, ?_, hinv.dusts, by simp, hinv.chunk_digit_succ, hinv.chunks_increasing⟩
    · simp only [Bool.false_eq_true, if_false, hsum]
      omega
    · omega
    · omega

/-! What one emitting step appends: the pending dust when it is nonzero, then the digit's chunk
when it is nonzero. -/

theorem dusts_final (hdusts : calls.filter DecomposeCall.isDust =
      if isDustHandled then [.dust dust] else []) :
    (calls ++ if !isDustHandled && dust != 0 then [DecomposeCall.dust dust] else []).filter
        DecomposeCall.isDust =
      if (isDustHandled || dust != 0) = true then [.dust dust] else [] := by
  rw [List.filter_append, hdusts]
  by_cases hd : dust = 0 <;> cases isDustHandled <;> simp [hd, DecomposeCall.isDust]

theorem sum_finalDust (isDustHandled : Bool) (dust : UInt64) :
    ((if !isDustHandled && dust != 0 then [DecomposeCall.dust dust] else []).map
        fun c => c.amount.toNat).sum = if isDustHandled = true then 0 else dust.toNat := by
  by_cases hd : dust = 0 <;> cases isDustHandled <;> simp [hd, DecomposeCall.amount]

theorem chunks_final :
    (calls ++ if !isDustHandled && dust != 0 then [DecomposeCall.dust dust] else []).filterMap
        DecomposeCall.chunk? = calls.filterMap DecomposeCall.chunk? := by
  rw [List.filterMap_append]
  by_cases hd : dust = 0 <;> cases isDustHandled <;> simp [hd, DecomposeCall.chunk?]

theorem sum_dustCalls (isDustHandled : Bool) (dust : UInt64) :
    (((if !isDustHandled && dust != 0 then [DecomposeCall.dust dust] else []).map
        fun c => c.amount.toNat).sum +
      if (isDustHandled || dust != 0) = true then 0 else dust.toNat) =
      if isDustHandled = true then 0 else dust.toNat := by
  by_cases hd : dust = 0 <;> cases isDustHandled <;> simp [hd, DecomposeCall.amount]

theorem sum_chunkCalls (chunk : UInt64) :
    ((if chunk != 0 then [DecomposeCall.chunk chunk] else []).map fun c => c.amount.toNat).sum =
      chunk.toNat := by
  by_cases hc : chunk = 0 <;> simp [hc, DecomposeCall.amount]

theorem dusts_emit (calls : List DecomposeCall) (isDustHandled : Bool) (dust chunk : UInt64)
    (hdusts : calls.filter DecomposeCall.isDust =
      if isDustHandled then [.dust dust] else []) :
    (calls ++ (if !isDustHandled && dust != 0 then [DecomposeCall.dust dust] else []) ++
        (if chunk != 0 then [DecomposeCall.chunk chunk] else [])).filter DecomposeCall.isDust =
      if (isDustHandled || dust != 0) = true then [.dust dust] else [] := by
  rw [List.filter_append, dusts_final hdusts]
  by_cases hc : chunk = 0 <;> simp [hc, DecomposeCall.isDust]

theorem chunks_emit (calls : List DecomposeCall) (isDustHandled : Bool) (dust chunk : UInt64) :
    (calls ++ (if !isDustHandled && dust != 0 then [DecomposeCall.dust dust] else []) ++
        (if chunk != 0 then [DecomposeCall.chunk chunk] else [])).filterMap DecomposeCall.chunk? =
      calls.filterMap DecomposeCall.chunk? ++ if chunk != 0 then [chunk] else [] := by
  rw [List.filterMap_append, chunks_final]
  by_cases hc : chunk = 0 <;> simp [hc, DecomposeCall.chunk?]

theorem DecomposeInv.emit (hinv : DecomposeInv a0 t k calls dust isDustHandled)
    (hchunk : chunk.toNat = a0 / 10 ^ k % 10 * 10 ^ k) (hfit : t < dust.toNat + chunk.toNat) :
    DecomposeInv a0 t (k + 1)
      (calls ++ (if !isDustHandled && dust != 0 then [DecomposeCall.dust dust] else []) ++
        (if chunk != 0 then [DecomposeCall.chunk chunk] else []))
      dust (isDustHandled || dust != 0) := by
  have hlow := lowDigits_succ a0 k
  have hdigit9 : a0 / 10 ^ k % 10 ≤ 9 := Nat.le_of_lt_succ (Nat.mod_lt _ (by norm_num))
  have hchunk_lt : chunk.toNat < 10 ^ (k + 1) := by
    rw [hchunk, pow_succ]
    exact Nat.mul_lt_mul_of_lt_of_le (by omega) le_rfl (by positivity) |>.trans_eq (Nat.mul_comm _ _)
  have hnew : ∀ c ∈ (if chunk != 0 then [chunk] else []),
      1 ≤ a0 / 10 ^ k % 10 ∧ a0 / 10 ^ k % 10 ≤ 9 ∧ c.toNat = a0 / 10 ^ k % 10 * 10 ^ k := by
    intro c hc
    by_cases h0 : chunk = 0
    · simp [h0] at hc
    · simp only [bne_iff_ne, ne_eq, h0, not_false_eq_true, if_true, List.mem_singleton] at hc
      subst hc
      have : c.toNat ≠ 0 := fun h => h0 (UInt64.toNat_inj.mp (by simpa using h))
      refine ⟨?_, hdigit9, hchunk⟩
      by_contra h1
      rw [hchunk, show a0 / 10 ^ k % 10 = 0 by omega, Nat.zero_mul] at this
      exact this rfl
  refine ⟨?sum, ?low, hinv.dust_le, dusts_emit calls _ dust chunk hinv.dusts, ?handled, ?digit,
    ?increasing⟩
  case sum =>
    rw [List.map_append, List.map_append, List.sum_append, List.sum_append, sum_chunkCalls]
    have hpending := sum_dustCalls isDustHandled dust
    have := hinv.sum_eq
    omega
  case low =>
    have := hinv.dust_le_low
    omega
  case handled =>
    intro _
    omega
  case digit =>
    rw [chunks_emit]
    intro c hc
    rcases List.mem_append.mp hc with hold | hc'
    · exact hinv.chunk_digit_succ c hold
    · obtain ⟨h1, h9, hcd⟩ := hnew c hc'
      exact ⟨_, k, h1, h9, Nat.lt_succ_self k, hcd⟩
  case increasing =>
    rw [chunks_emit, List.map_append, List.pairwise_append]
    refine ⟨hinv.chunks_increasing, ?_, ?_⟩
    · by_cases h0 : chunk = 0 <;> simp [h0]
    · intro a ha b hb
      obtain ⟨c, hc, rfl⟩ := List.mem_map.mp ha
      obtain ⟨c', hc', rfl⟩ := List.mem_map.mp hb
      obtain ⟨d, j, h1, h9, hj, hcd⟩ := hinv.chunk_digit c hc
      obtain ⟨h1', h9', hcd'⟩ := hnew c' hc'
      rw [hcd, hcd', log_digit_mul_pow j h1 h9, log_digit_mul_pow k h1' h9']
      exact hj

end Invariant

theorem decomposeLoop_inv {a0 : Nat} (t : UInt64) (ha0 : a0 < 2 ^ 64) (amount dust order : UInt64)
    (isDustHandled : Bool) (k : Nat) (calls : List DecomposeCall)
    (hamt : amount.toNat = a0 / 10 ^ k) (hord : order.toNat = 10 ^ k % 2 ^ 64)
    (hinv : DecomposeInv a0 t.toNat k calls dust isDustHandled) :
    ∃ K, a0 < 10 ^ K ∧ DecomposeInv a0 t.toNat K
      (calls ++ (decomposeLoop t amount dust order isDustHandled).1)
      (decomposeLoop t amount dust order isDustHandled).2.1
      (decomposeLoop t amount dust order isDustHandled).2.2 := by
  by_cases h : amount = 0
  · subst h
    refine ⟨k, ?_, by simpa [decomposeLoop_zero] using hinv⟩
    have hzero : a0 / 10 ^ k = 0 := by simpa using hamt.symm
    exact (Nat.div_eq_zero_iff_lt (by positivity)).mp hzero
  · obtain ⟨hamt', hord'⟩ := decompose_next hamt hord
    have hchunk := chunk_toNat ha0 h hamt hord
    have hsum := dust_add_chunk_toNat ha0 hchunk hinv.dust_le_low
    by_cases hfit : dust + amount % 10 * order ≤ t
    · have hfit' : dust.toNat + (amount % 10 * order).toNat ≤ t.toNat := by
        rw [← hsum]
        exact UInt64.le_iff_toNat_le.mp hfit
      rw [decomposeLoop_fits h hfit]
      exact decomposeLoop_inv t ha0 _ _ _ isDustHandled (k + 1) calls hamt' hord'
        (hinv.fits hchunk hsum hfit')
    · have hfit' : t.toNat < dust.toNat + (amount % 10 * order).toNat := by
        rw [← hsum]
        exact UInt64.lt_iff_toNat_lt.mp (UInt64.not_le.mp hfit)
      rw [decomposeLoop_emit h hfit]
      obtain ⟨K, hK, hinvK⟩ := decomposeLoop_inv t ha0 _ _ _ _ (k + 1) _ hamt' hord'
        (hinv.emit hchunk hfit')
      exact ⟨K, hK, by simpa only [List.append_assoc] using hinvK⟩
termination_by amount.toNat
decreasing_by
  all_goals exact div_ten_lt h

/-! ### After the loop -/

section Finish

variable {calls : List DecomposeCall} {isDustHandled : Bool} {dust : UInt64}

theorem DecomposeInv.finish {a0 K : Nat} {t amount : UInt64}
    (hinv : DecomposeInv a0 t.toNat K calls dust isDustHandled) (hK : a0 < 10 ^ K)
    (hamt : amount.toNat = a0) :
    DecomposeSpec amount t
      (calls ++ if !isDustHandled && dust != 0 then [DecomposeCall.dust dust] else []) := by
  have hall : a0 % 10 ^ K = a0 := Nat.mod_eq_of_lt hK
  have hdusts := dusts_final hinv.dusts
  have hchunk_digit : ∀ c, DecomposeCall.chunk c ∈
      (calls ++ if !isDustHandled && dust != 0 then [DecomposeCall.dust dust] else []) →
      ∃ d k, 1 ≤ d ∧ d ≤ 9 ∧ c.toNat = d * 10 ^ k := by
    intro c hc
    rw [← mem_chunks_iff, chunks_final] at hc
    obtain ⟨d, j, h1, h9, -, hcd⟩ := hinv.chunk_digit c hc
    exact ⟨d, j, h1, h9, hcd⟩
  refine ⟨?once, ?le, ?sum, hchunk_digit, ?valid, by rw [chunks_final]; exact hinv.chunks_increasing⟩
  case once =>
    rw [hdusts]
    split <;> simp
  case le =>
    intro d hd
    rw [← mem_dusts_iff, hdusts] at hd
    split at hd
    · obtain rfl : d = dust := by simpa using hd
      exact UInt64.le_iff_toNat_le.mpr hinv.dust_le
    · simp at hd
  case sum =>
    rw [List.map_append, List.sum_append, sum_finalDust, hamt, ← hall]
    exact hinv.sum_eq
  case valid =>
    intro c hc
    obtain ⟨d, k, h1, h9, hcd⟩ := hchunk_digit c hc
    exact isValidDecomposedAmount_of_digit h1 h9 hcd

end Finish

theorem decomposeAmountIntoDigits_spec (amount dustThreshold : UInt64) :
    DecomposeSpec amount dustThreshold (decomposeAmountIntoDigits amount dustThreshold) := by
  by_cases h0 : amount = 0
  · subst h0
    rw [decomposeAmountIntoDigits, if_pos rfl]
    exact ⟨by simp, by simp, by simp, by simp, by simp, List.Pairwise.nil⟩
  · obtain ⟨K, hK, hinv⟩ := decomposeLoop_inv dustThreshold amount.toNat_lt amount 0 1 false 0 []
      (by simp) (by simp) (decomposeInv_init _ _)
    rw [List.nil_append] at hinv
    rw [decomposeAmountIntoDigits, if_neg h0]
    exact hinv.finish hK rfl

-- The comment's own example, 62387455827 against a threshold of 500000.
example : decomposeAmountIntoDigits 62387455827 500000 =
    [.dust 455827, .chunk 7000000, .chunk 80000000, .chunk 300000000, .chunk 2000000000,
      .chunk 60000000000] := by
  decide +kernel

/-! ### print_money and parse_amount

Strings are lists of characters. -/

/-- The values set_default_decimal_point lets default_decimal_point take. -/
structure DecimalPoint where
  val : Nat
  valid : val = 9 ∨ val = 6 ∨ val = 3 ∨ val = 0

/-- set_default_decimal_point: only 9, 6, 3 and 0 are accepted. -/
def setDefaultDecimalPoint (decimalPoint : UInt32) : Except String DecimalPoint :=
  if h : decimalPoint.toNat = 9 ∨ decimalPoint.toNat = 6 ∨ decimalPoint.toNat = 3 ∨
      decimalPoint.toNat = 0 then
    .ok ⟨decimalPoint.toNat, h⟩
  else .error ("Invalid decimal point specification: " ++ toString decimalPoint)

def printMoneyDigits (amount : UInt64) (decimalPoint : Nat) : List Char :=
  let s := Nat.toDigits 10 amount.toNat
  if s.length < decimalPoint + 1 then List.replicate (decimalPoint + 1 - s.length) '0' ++ s
  else s

def printMoneyAt (amount : UInt64) (decimalPoint : Nat) : List Char :=
  let s := printMoneyDigits amount decimalPoint
  if decimalPoint > 0 then s.take (s.length - decimalPoint) ++ '.' :: s.drop (s.length - decimalPoint)
  else s

/-- print_money: a decimal_point of (unsigned int)-1 stands for default_decimal_point. -/
def printMoney (defaultDecimalPoint : Nat) (amount : UInt64) (decimalPoint : UInt32) : List Char :=
  printMoneyAt amount (if decimalPoint = 0xFFFFFFFF then defaultDecimalPoint else decimalPoint.toNat)

def isSpace (c : Char) : Bool := c == ' ' || '\t' ≤ c && c ≤ '\r'

/-- boost::algorithm::trim: trim_right, then trim_left. -/
def trim (s : List Char) : List Char := (s.reverse.dropWhile isSpace).reverse.dropWhile isSpace

def lexicalCast (strId : List Char) : Option UInt64 :=
  if strId ≠ [] ∧ Nat.ofDigitChars 10 strId 0 < 2 ^ 64 then some (Nat.ofDigitChars 10 strId 0).toUInt64
  else none

/-- get_xtype_from_string for uint64_t: every character must be a digit, then lexical_cast. -/
def getXtypeFromString (strId : List Char) : Option UInt64 :=
  if strId.all Char.isDigit then lexicalCast strId else none

def dropFractionZeros (defaultDecimalPoint : Nat) : List Char → Nat → List Char × Nat
  | strAmount, 0 => (strAmount, 0)
  | strAmount, fractionSize + 1 =>
    if defaultDecimalPoint < fractionSize + 1 ∧ strAmount.getLast? = some '0' then
      dropFractionZeros defaultDecimalPoint strAmount.dropLast fractionSize
    else (strAmount, fractionSize + 1)

/-- The end of parse_amount: the digits without the point, right-padded with zeros to
default_decimal_point fractional digits. -/
def parseAmountDigits (defaultDecimalPoint : Nat) (strAmount : List Char) (fractionSize : Nat) :
    Option UInt64 :=
  if strAmount = [] then none
  else
    getXtypeFromString (if fractionSize < defaultDecimalPoint then
      strAmount ++ List.replicate (defaultDecimalPoint - fractionSize) '0' else strAmount)

def parseAmount (defaultDecimalPoint : Nat) (strAmount : List Char) : Option UInt64 :=
  let strAmount := trim strAmount
  match strAmount.idxOf? '.' with
  | some pointIndex =>
    let r := dropFractionZeros defaultDecimalPoint strAmount (strAmount.length - pointIndex - 1)
    if defaultDecimalPoint < r.2 then none
    else parseAmountDigits defaultDecimalPoint (r.1.eraseIdx pointIndex) r.2
  | none => parseAmountDigits defaultDecimalPoint strAmount 0

/-! #### The characters -/

theorem isSpace_of_isDigit {c : Char} (h : c.isDigit = true) : isSpace c = false := by
  simp only [Char.isDigit, Bool.and_eq_true, decide_eq_true_eq] at h
  have h0 : '0'.toNat ≤ c.toNat := h.1
  have hblank : c ≠ ' ' := by
    rintro rfl
    simp at h0
  have hcontrol : ¬c ≤ '\r' := fun hle => by
    have : c.toNat ≤ '\r'.toNat := hle
    simp at h0 this
    omega
  simp [isSpace, hblank, hcontrol]

theorem dropWhile_eq_self {p : Char → Bool} {s : List Char} (hs : ∀ c ∈ s, p c = false) :
    s.dropWhile p = s := by
  cases s with
  | nil => rfl
  | cons c s => simp [hs c List.mem_cons_self]

theorem trim_eq_self {s : List Char} (hs : ∀ c ∈ s, isSpace c = false) : trim s = s := by
  have hrev : ∀ c ∈ s.reverse, isSpace c = false := fun c hc => hs c (List.mem_reverse.mp hc)
  rw [trim, dropWhile_eq_self hrev, List.reverse_reverse, dropWhile_eq_self hs]

theorem idxOf?_append_cons {α : Type*} [BEq α] [LawfulBEq α] {a : α} {l : List α} (m : List α)
    (h : a ∉ l) : (l ++ a :: m).idxOf? a = some l.length := by
  induction l with
  | nil => simp [List.idxOf?_cons]
  | cons x xs ih =>
    simp only [List.mem_cons, not_or] at h
    simp [List.idxOf?_cons, ih h.2, Ne.symm h.1]

/-! #### Digit strings and their values -/

theorem ofDigitChars_append_zeros (s : List Char) (z : Nat) :
    Nat.ofDigitChars 10 (s ++ List.replicate z '0') 0 = Nat.ofDigitChars 10 s 0 * 10 ^ z := by
  rw [Nat.ofDigitChars_append, Nat.ofDigitChars_replicate_zero, Nat.mul_comm]

theorem ofDigitChars_zeros_append (z : Nat) (s : List Char) :
    Nat.ofDigitChars 10 (List.replicate z '0' ++ s) 0 = Nat.ofDigitChars 10 s 0 := by
  rw [Nat.ofDigitChars_append, Nat.ofDigitChars_replicate_zero, Nat.mul_zero,
    Nat.ofDigitChars_eq_ofDigitChars_zero, Nat.mul_zero, Nat.zero_add]

theorem getXtypeFromString_of_digits {s : List Char} (hdigits : ∀ c ∈ s, c.isDigit = true)
    (hne : s ≠ []) (hfit : Nat.ofDigitChars 10 s 0 < 2 ^ 64) :
    getXtypeFromString s = some (Nat.ofDigitChars 10 s 0).toUInt64 := by
  rw [getXtypeFromString, if_pos (List.all_eq_true.mpr hdigits), lexicalCast, if_pos ⟨hne, hfit⟩]

theorem getXtypeFromString_eq_some {s : List Char} {v : UInt64} (h : getXtypeFromString s = some v) :
    s ≠ [] ∧ (∀ c ∈ s, c.isDigit = true) ∧ v.toNat = Nat.ofDigitChars 10 s 0 := by
  unfold getXtypeFromString lexicalCast at h
  split at h
  · rename_i hdigits
    split at h
    · rename_i hfit
      cases h
      refine ⟨hfit.1, List.all_eq_true.mp hdigits, ?_⟩
      rw [Nat.toUInt64_eq, UInt64.toNat_ofNat', Nat.mod_eq_of_lt hfit.2]
    · cases h
  · cases h

/-! #### print_money is read back by parse_amount -/

section PrintMoney

variable (amount : UInt64) (decimalPoint : Nat)

theorem printMoneyDigits_isDigit : ∀ c ∈ printMoneyDigits amount decimalPoint, c.isDigit = true := by
  have hdigits : ∀ c ∈ Nat.toDigits 10 amount.toNat, c.isDigit = true :=
    fun c hc => Nat.isDigit_of_mem_toDigits (by norm_num) le_rfl hc
  unfold printMoneyDigits
  dsimp only
  split
  · intro c hc
    rcases List.mem_append.mp hc with hzero | hc
    · rw [List.eq_of_mem_replicate hzero]
      rfl
    · exact hdigits c hc
  · exact hdigits

theorem length_printMoneyDigits : decimalPoint + 1 ≤ (printMoneyDigits amount decimalPoint).length := by
  unfold printMoneyDigits
  dsimp only
  split <;> simp <;> omega

theorem ofDigitChars_printMoneyDigits :
    Nat.ofDigitChars 10 (printMoneyDigits amount decimalPoint) 0 = amount.toNat := by
  unfold printMoneyDigits
  dsimp only
  split
  · rw [ofDigitChars_zeros_append, Nat.ofDigitChars_ten_toDigits]
  · exact Nat.ofDigitChars_ten_toDigits

theorem parseAmount_printMoneyAt : parseAmount decimalPoint (printMoneyAt amount decimalPoint) = some amount := by
  have hdigits := printMoneyDigits_isDigit amount decimalPoint
  have hlen := length_printMoneyDigits amount decimalPoint
  have hne : printMoneyDigits amount decimalPoint ≠ [] := List.ne_nil_of_length_pos (by omega)
  have hread : getXtypeFromString (printMoneyDigits amount decimalPoint) = some amount := by
    rw [getXtypeFromString_of_digits hdigits hne (by simpa [ofDigitChars_printMoneyDigits] using
      amount.toNat_lt), ofDigitChars_printMoneyDigits, Nat.toUInt64_eq, UInt64.ofNat_toNat]
  have hnopoint : '.' ∉ printMoneyDigits amount decimalPoint := fun hmem =>
    absurd (hdigits '.' hmem) (by decide)
  unfold printMoneyAt
  split
  · rename_i hpos
    set s := printMoneyDigits amount decimalPoint with hs
    have hhead : '.' ∉ s.take (s.length - decimalPoint) := fun hmem => hnopoint (List.mem_of_mem_take hmem)
    have hnospace : ∀ c ∈ s.take (s.length - decimalPoint) ++ '.' :: s.drop (s.length - decimalPoint),
        isSpace c = false := by
      intro c hc
      simp only [List.mem_append, List.mem_cons] at hc
      rcases hc with hc | rfl | hc
      · exact isSpace_of_isDigit (hdigits c (List.mem_of_mem_take hc))
      · rfl
      · exact isSpace_of_isDigit (hdigits c (List.mem_of_mem_drop hc))
    have htake : (s.take (s.length - decimalPoint)).length = s.length - decimalPoint := by
      simp
    have hfraction : (s.take (s.length - decimalPoint) ++ '.' :: s.drop (s.length - decimalPoint)).length -
        (s.length - decimalPoint) - 1 = (decimalPoint - 1) + 1 := by
      simp
      omega
    have hdrop : dropFractionZeros decimalPoint
        (s.take (s.length - decimalPoint) ++ '.' :: s.drop (s.length - decimalPoint)) ((decimalPoint - 1) + 1) =
        (s.take (s.length - decimalPoint) ++ '.' :: s.drop (s.length - decimalPoint), decimalPoint) := by
      rw [dropFractionZeros, if_neg (by omega), Nat.sub_add_cancel hpos]
    have herase : (s.take (s.length - decimalPoint) ++ '.' :: s.drop (s.length - decimalPoint)).eraseIdx
        (s.length - decimalPoint) = s := by
      rw [List.eraseIdx_append_of_length_le (by omega), htake, Nat.sub_self, List.eraseIdx_cons_zero,
        List.take_append_drop]
    simp only [parseAmount, trim_eq_self hnospace, idxOf?_append_cons _ hhead, htake, hfraction, hdrop,
      lt_irrefl, if_false, herase, parseAmountDigits, hne, hread]
  · rename_i hzero
    have hnospace : ∀ c ∈ printMoneyDigits amount decimalPoint, isSpace c = false :=
      fun c hc => isSpace_of_isDigit (hdigits c hc)
    simp only [parseAmount, trim_eq_self hnospace, List.idxOf?_eq_none_iff.mpr hnopoint, parseAmountDigits,
      hne, if_false, show ¬0 < decimalPoint by omega, hread]

end PrintMoney

/-! #### What parse_amount accepts -/

theorem eq_append_of_idxOf? {l : List Char} {a : Char} {p : Nat} (h : l.idxOf? a = some p) :
    ∃ i f, l = i ++ a :: f ∧ i.length = p := by
  obtain ⟨hlt, hat, -⟩ := List.idxOf?_eq_some_iff.mp h
  refine ⟨l.take p, l.drop (p + 1), ?_, List.length_take_of_le (by omega)⟩
  conv_lhs => rw [← List.take_append_drop p l]
  rw [List.drop_eq_getElem_cons hlt, hat]

theorem dropFractionZeros_spec (d : Nat) (pre f : List Char) :
    ∃ f' z, dropFractionZeros d (pre ++ f) f.length = (pre ++ f', f'.length) ∧
      f = f' ++ List.replicate z '0' := by
  induction f using List.reverseRecOn with
  | nil => exact ⟨[], 0, by simp [dropFractionZeros], rfl⟩
  | append_singleton g c ih =>
    rw [List.length_append, List.length_singleton, dropFractionZeros]
    by_cases hdrop : d < g.length + 1 ∧ (pre ++ (g ++ [c])).getLast? = some '0'
    · rw [if_pos hdrop, ← List.append_assoc, List.dropLast_concat]
      obtain ⟨f', z, hrun, hg⟩ := ih
      have hc : c = '0' := by simpa using hdrop.2
      refine ⟨f', z + 1, hrun, ?_⟩
      rw [hg, hc, List.replicate_succ', List.append_assoc]
    · rw [if_neg hdrop]
      exact ⟨g ++ [c], 0, by simp, by simp⟩

theorem parseAmountDigits_eq_some {d : Nat} {s : List Char} {fractionSize : Nat} {v : UInt64}
    (hfraction : fractionSize ≤ d) (h : parseAmountDigits d s fractionSize = some v) :
    s ≠ [] ∧ (∀ c ∈ s, c.isDigit = true) ∧
      v.toNat = Nat.ofDigitChars 10 s 0 * 10 ^ (d - fractionSize) := by
  unfold parseAmountDigits at h
  split at h
  · cases h
  · rename_i hne
    split at h
    · obtain ⟨-, hdigits, hv⟩ := getXtypeFromString_eq_some h
      refine ⟨hne, fun c hc => hdigits c (List.mem_append_left _ hc), ?_⟩
      rw [hv, ofDigitChars_append_zeros]
    · obtain ⟨-, hdigits, hv⟩ := getXtypeFromString_eq_some h
      refine ⟨hne, hdigits, ?_⟩
      rw [hv, show d - fractionSize = 0 by omega, pow_zero, Nat.mul_one]

theorem parseAmount_sound {d : Nat} {s : List Char} {v : UInt64} (h : parseAmount d s = some v) :
    ∃ i f, ((trim s = i ∧ f = []) ∨ trim s = i ++ '.' :: f) ∧ (∀ c ∈ i ++ f, c.isDigit = true) ∧
      i ++ f ≠ [] ∧ v.toNat * 10 ^ f.length = Nat.ofDigitChars 10 (i ++ f) 0 * 10 ^ d := by
  unfold parseAmount at h
  dsimp only at h
  split at h
  · rename_i p hp
    obtain ⟨i, f, ht, hi⟩ := eq_append_of_idxOf? hp
    obtain ⟨f', z, hrun, hf⟩ := dropFractionZeros_spec d (i ++ ['.']) f
    have hfraction : (i ++ '.' :: f).length - p - 1 = f.length := by
      simp only [List.length_append, List.length_cons]
      omega
    have hsplit : i ++ '.' :: f = i ++ ['.'] ++ f := by simp
    rw [ht, hfraction, hsplit, hrun] at h
    dsimp only at h
    split at h
    · cases h
    · rename_i hle
      have herase : (i ++ ['.'] ++ f').eraseIdx p = i ++ f' := by
        rw [List.append_assoc, List.eraseIdx_append_of_length_le (by omega), hi, Nat.sub_self]
        rfl
      rw [herase] at h
      obtain ⟨hne, hdigits, hv⟩ := parseAmountDigits_eq_some (by omega) h
      refine ⟨i, f, Or.inr ht, ?_, ?_, ?_⟩
      · intro c hc
        rw [hf, ← List.append_assoc] at hc
        rcases List.mem_append.mp hc with hc | hc
        · exact hdigits c hc
        · rw [List.eq_of_mem_replicate hc]
          rfl
      · rw [hf, ← List.append_assoc]
        exact fun hnil => hne (List.append_eq_nil_iff.mp hnil).1
      · calc v.toNat * 10 ^ f.length
            = Nat.ofDigitChars 10 (i ++ f') 0 * 10 ^ (d - f'.length) * 10 ^ (f'.length + z) := by
              rw [hv, hf, List.length_append, List.length_replicate]
          _ = Nat.ofDigitChars 10 (i ++ f') 0 * 10 ^ z * 10 ^ d := by
              rw [Nat.mul_assoc, ← pow_add, Nat.mul_assoc, ← pow_add]
              congr 2
              omega
          _ = Nat.ofDigitChars 10 (i ++ f) 0 * 10 ^ d := by
              rw [hf, ← List.append_assoc, ofDigitChars_append_zeros]
  · obtain ⟨hne, hdigits, hv⟩ := parseAmountDigits_eq_some (Nat.zero_le d) h
    refine ⟨trim s, [], Or.inl ⟨rfl, rfl⟩, by simpa using hdigits, by simpa using hne, ?_⟩
    rw [hv, List.append_nil, Nat.sub_zero, List.length_nil, pow_zero, Nat.mul_one]

/-! #### At the decimal points set_default_decimal_point allows -/

theorem DecimalPoint.val_le (dp : DecimalPoint) : dp.val ≤ 9 := by
  rcases dp.valid with h | h | h | h <;> omega

theorem printMoney_decimalPoint (defaultDecimalPoint : Nat) (amount : UInt64) (dp : DecimalPoint) :
    printMoney defaultDecimalPoint amount dp.val.toUInt32 = printMoneyAt amount dp.val := by
  have hle := dp.val_le
  have htoNat : dp.val.toUInt32.toNat = dp.val := by
    rw [Nat.toUInt32_eq, UInt32.toNat_ofNat']
    exact Nat.mod_eq_of_lt (by omega)
  have hne : dp.val.toUInt32 ≠ 0xFFFFFFFF := fun h => by
    have := congrArg UInt32.toNat h
    rw [htoNat] at this
    simp only [UInt32.reduceToNat] at this
    omega
  rw [printMoney, if_neg hne, htoNat]

theorem parseAmount_printMoney_exact (dp : DecimalPoint) :
    (∀ amount : UInt64,
      parseAmount dp.val (printMoney dp.val amount dp.val.toUInt32) = some amount) ∧
    ∀ (s : List Char) (v : UInt64), parseAmount dp.val s = some v →
      ∃ i f, ((trim s = i ∧ f = []) ∨ trim s = i ++ '.' :: f) ∧
        (∀ c ∈ i ++ f, c.isDigit = true) ∧ i ++ f ≠ [] ∧
        v.toNat * 10 ^ f.length = Nat.ofDigitChars 10 (i ++ f) 0 * 10 ^ dp.val := by
  refine ⟨fun amount => ?_, fun s v h => parseAmount_sound h⟩
  rw [printMoney_decimalPoint]
  exact parseAmount_printMoneyAt amount dp.val

example : printMoney 9 1234567890123 0xFFFFFFFF = "1234.567890123".toList := by decide
example : printMoney 9 5 3 = "0.005".toList := by decide
example : parseAmount 9 " 1.5000000000000 ".toList = some 1500000000 := by decide
example : parseAmount 3 "0.0001".toList = none := by decide

end PepePrivate.Basic
