import PepePrivate.Net.Levin

/-! What handle_recv makes of the bytes a connection receives. A header as the sender writes it
reads back as itself. Each pass of the loop decides on the prefix of the buffer it consumes, so
the way the bytes are cut into chunks does not change what the handler does with them. A stream
of well-formed packets is dispatched packet by packet, each with its header and body. -/

namespace PepePrivate.Net

open Digits

/-! ## The header on the wire -/

theorem fieldLE_append_of_length_le {a b : List UInt8} {off n : Nat} (h : a.length ≤ off) :
    fieldLE (a ++ b) off n = fieldLE b (off - a.length) n := by
  rw [fieldLE, fieldLE, List.drop_append, List.drop_eq_nil_of_le h, List.nil_append]

theorem fieldLE_zero_append {a b : List UInt8} {n : Nat} (h : a.length = n) :
    fieldLE (a ++ b) 0 n = ofBytesLE a := by
  rw [fieldLE, List.drop_zero, List.take_left' h]

theorem toUInt64_ofBytesLE_toBytesLE (x : UInt64) :
    (ofBytesLE (toBytesLE 8 x.toNat)).toUInt64 = x := by
  rw [ofBytesLE_toBytesLE, Nat.mod_eq_of_lt (by simpa using x.toNat_lt)]
  exact UInt64.ofNat_toNat

theorem toUInt32_ofBytesLE_toBytesLE (x : UInt32) :
    (ofBytesLE (toBytesLE 4 x.toNat)).toUInt32 = x := by
  rw [ofBytesLE_toBytesLE, Nat.mod_eq_of_lt (by simpa using x.toNat_lt)]
  exact UInt32.ofNat_toNat

@[simp] theorem BucketHead2.length_toBytes (h : BucketHead2) : h.toBytes.length = bucketHead2Size := by
  simp [BucketHead2.toBytes, bucketHead2Size]

theorem BucketHead2.ofBytes_toBytes_append (h : BucketHead2) (rest : List UInt8) :
    BucketHead2.ofBytes (h.toBytes ++ rest) = h := by
  have hbool : ((if h.haveToReturnData then 1 else 0 : UInt8) != 0) = h.haveToReturnData := by
    cases h.haveToReturnData <;> rfl
  simp (disch := simp) only [BucketHead2.toBytes, List.append_assoc, BucketHead2.ofBytes,
    fieldLE_append_of_length_le, fieldLE_zero_append, length_toBytesLE, List.length_singleton,
    Nat.reduceSub, List.getD_append_right, List.getD_append, List.getD_cons_zero, hbool,
    toUInt64_ofBytesLE_toBytesLE, toUInt32_ofBytesLE_toBytesLE, Int32.toInt32_toUInt32]

theorem BucketHead2.signature_ofBytes (b : List UInt8) :
    (BucketHead2.ofBytes b).signature = (ofBytesLE (b.take 8)).toUInt64 := by
  rw [BucketHead2.ofBytes, fieldLE, List.drop_zero]

theorem signature_ne_iff {b : List UInt8} (hb : 8 ≤ b.length) :
    levinSignature ≠ (ofBytesLE (b.take 8)).toUInt64 ↔ ofBytesLE (b.take 8) ≠ levinSignature.toNat := by
  have hlt : ofBytesLE (b.take 8) < 2 ^ 64 := by
    have h := ofBytesLE_lt (b.take 8)
    rw [List.length_take_of_le hb] at h
    exact lt_of_lt_of_eq h (by norm_num)
  constructor
  · intro hne heq
    exact hne (by rw [heq]; simp)
  · intro hne heq
    apply hne
    rw [heq, UInt64.toNat_ofNat_of_lt' hlt]

/-! ## One pass of the loop of handle_recv -/

section Step

variable {τ κ : Type} {maxPacketSize : Nat} {cmds : LevinCommandsHandler τ}
  {s s' : LevinState τ κ} {b : List UInt8} {k : Nat}

theorem LevinState.doSend_eq_some {bytes : List UInt8} (h : s.doSend bytes = some s') :
    s' = { s with sendQue := s.sendQue ++ bytes } := by
  unfold LevinState.doSend at h
  split at h
  · cases h
  · exact (Option.some.inj h).symm

/-- What dispatching a body does: a response pops the oldest handler and calls it back when
that stops its timer, or keeps it with its cancel tried; anything else leaves the handlers, the
callbacks, the invokes and the flags alone. Each records the body with its header. -/
theorem LevinState.handlePacket_cases (buff : List UInt8) :
    (∃ h rest, s.invokeResponseHandlers = h :: rest ∧ h.cancelTimer.1 = true ∧
        (s.handlePacket cmds buff).2 =
          ({ s with dispatched := s.dispatched ++ [(s.currentHead, buff)],
                    invokeResponseHandlers := rest,
                    callbacks := s.callbacks ++
                      [CallbackCall.response h.cb s.currentHead.returnCode buff] } :
            LevinState τ κ).finishOuterCall) ∨
      (∃ h rest, s.invokeResponseHandlers = h :: rest ∧ h.cancelTimer.1 = false ∧
        (s.handlePacket cmds buff).2 =
          { s with dispatched := s.dispatched ++ [(s.currentHead, buff)],
                   invokeResponseHandlers := h.cancelTimer.2 :: rest }) ∨
      ((s.handlePacket cmds buff).2.invokeResponseHandlers = s.invokeResponseHandlers ∧
        (s.handlePacket cmds buff).2.callbacks = s.callbacks ∧
        (s.handlePacket cmds buff).2.invokes = s.invokes ∧
        (s.handlePacket cmds buff).2.wasShutdown = s.wasShutdown ∧
        (s.handlePacket cmds buff).2.closeCalled = s.closeCalled ∧
        (s.handlePacket cmds buff).2.dispatched = s.dispatched ++ [(s.currentHead, buff)]) := by
  unfold LevinState.handlePacket
  dsimp only
  split
  · split
    · rename_i h rest heq
      split
      · rename_i hc
        exact .inl ⟨h, rest, heq, hc, rfl⟩
      · rename_i hc
        exact .inr (.inl ⟨h, rest, heq, by simpa using hc, rfl⟩)
    · split <;> exact .inr (.inr ⟨rfl, rfl, rfl, rfl, rfl, rfl⟩)
  · split
    · split
      · rename_i s₁ hsend
        obtain rfl := LevinState.doSend_eq_some hsend
        exact .inr (.inr ⟨rfl, rfl, rfl, rfl, rfl, rfl⟩)
      · exact .inr (.inr ⟨rfl, rfl, rfl, rfl, rfl, rfl⟩)
    · exact .inr (.inr ⟨rfl, rfl, rfl, rfl, rfl, rfl⟩)

theorem LevinState.handlePacket_frame (buff : List UInt8) :
    (s.handlePacket cmds buff).2.dispatched = s.dispatched ++ [(s.currentHead, buff)] ∧
      (s.handlePacket cmds buff).2.closeCalled = s.closeCalled := by
  rcases @LevinState.handlePacket_cases _ _ cmds s buff with
    ⟨h, rest, -, -, hres⟩ | ⟨h, rest, -, -, hres⟩ | ⟨-, -, -, -, hclose, hdisp⟩
  · rw [hres]
    exact ⟨rfl, rfl⟩
  · rw [hres]
    exact ⟨rfl, rfl⟩
  · exact ⟨hdisp, hclose⟩

theorem recvStep_eq_next (h : recvStep maxPacketSize cmds s b = .next s' k) :
    (s.state = .body ∧ k = s.currentHead.cb.toNat ∧ k ≤ b.length ∧
        (s.handlePacket cmds (b.take k)).1 = true ∧
        s' = { (s.handlePacket cmds (b.take k)).2 with state := .head }) ∨
      (s.state = .head ∧ k = bucketHead2Size ∧ bucketHead2Size ≤ b.length ∧
        levinSignature = (BucketHead2.ofBytes (b.take bucketHead2Size)).signature ∧
        (BucketHead2.ofBytes (b.take bucketHead2Size)).cb.toNat ≤ maxPacketSize ∧
        s' = { s with currentHead := BucketHead2.ofBytes (b.take bucketHead2Size), state := .body,
                      oponentProtocolVer :=
                        (BucketHead2.ofBytes (b.take bucketHead2Size)).protocolVersion.toInt32 }) := by
  unfold recvStep at h
  dsimp only at h
  split at h
  · rename_i hstate
    split at h
    · cases h
    rename_i hlen
    split at h
    · rename_i hok
      cases h
      exact .inl ⟨hstate, rfl, by omega, hok, rfl⟩
    · cases h
  · rename_i hstate
    split at h
    · split at h <;> cases h
    rename_i hlen
    split at h
    · cases h
    rename_i hsig
    split at h
    · cases h
    rename_i hmax
    cases h
    exact .inr ⟨hstate, rfl, by omega, not_not.mp hsig, by omega, rfl⟩

theorem recvStep_eq_fail (h : recvStep maxPacketSize cmds s b = .fail s' k) :
    (s.state = .body ∧ k = s.currentHead.cb.toNat ∧ k ≤ b.length ∧
        (s.handlePacket cmds (b.take k)).1 = false ∧ s' = (s.handlePacket cmds (b.take k)).2) ∨
      (s.state = .head ∧ k = 0 ∧ s' = s ∧ 8 ≤ b.length ∧
        ofBytesLE (b.take 8) ≠ levinSignature.toNat) ∨
      (s.state = .head ∧ k = bucketHead2Size ∧ bucketHead2Size ≤ b.length ∧
        maxPacketSize < (BucketHead2.ofBytes (b.take bucketHead2Size)).cb.toNat ∧
        s' = { s with currentHead := BucketHead2.ofBytes (b.take bucketHead2Size), state := .body,
                      oponentProtocolVer :=
                        (BucketHead2.ofBytes (b.take bucketHead2Size)).protocolVersion.toInt32 }) := by
  unfold recvStep at h
  dsimp only at h
  split at h
  · rename_i hstate
    split at h
    · cases h
    rename_i hlen
    split at h
    · cases h
    · rename_i hok
      cases h
      exact .inl ⟨hstate, rfl, by omega, by simpa using hok, rfl⟩
  · rename_i hstate
    split at h
    · split at h
      · rename_i hshort
        cases h
        exact .inr (.inl ⟨hstate, rfl, rfl, hshort.1, hshort.2⟩)
      · cases h
    rename_i hlen
    have h8 : 8 ≤ b.length := by simp only [bucketHead2Size] at hlen; omega
    split at h
    · rename_i hsig
      cases h
      rw [BucketHead2.signature_ofBytes, List.take_take, show min 8 bucketHead2Size = 8 from rfl,
        signature_ne_iff h8] at hsig
      exact .inr (.inl ⟨hstate, rfl, rfl, h8, hsig⟩)
    split at h
    · rename_i hmax
      cases h
      exact .inr (.inr ⟨hstate, rfl, by omega, hmax, rfl⟩)
    · cases h

theorem recvStep_decreasing :
    Drain.Decreasing (recvStep maxPacketSize cmds) (recvMeasure (τ := τ) (κ := κ)) := by
  intro s b s' k h
  rcases recvStep_eq_next h with ⟨hstate, -, hk, -, rfl⟩ | ⟨hstate, rfl, hk, -, -, rfl⟩
  · simp only [recvMeasure, hstate, List.length_drop, reduceCtorEq, if_true, if_false]
    omega
  · simp only [recvMeasure, hstate, List.length_drop, reduceCtorEq, if_true, if_false]
    simp only [bucketHead2Size] at hk ⊢
    omega

theorem recvStep_append (ys : List UInt8) (h : recvStep maxPacketSize cmds s b ≠ .wait) :
    recvStep maxPacketSize cmds s (b ++ ys) = recvStep maxPacketSize cmds s b := by
  unfold recvStep at h ⊢
  split
  · rename_i hstate
    rw [hstate] at h
    dsimp only at h ⊢
    have hlen : ¬b.length < s.currentHead.cb.toNat := fun hlt => h (if_pos hlt)
    rw [if_neg hlen, if_neg (by rw [List.length_append]; omega),
      List.take_append_of_le_length (by omega)]
  · rename_i hstate
    rw [hstate] at h
    dsimp only at h ⊢
    by_cases hlen : b.length < bucketHead2Size
    · rw [if_pos hlen] at h
      have hshort : 8 ≤ b.length ∧ ofBytesLE (b.take 8) ≠ levinSignature.toNat := by
        by_contra hno
        exact h (if_neg hno)
      have htake : (b ++ ys).take 8 = b.take 8 := List.take_append_of_le_length hshort.1
      rw [if_pos hlen, if_pos hshort]
      by_cases hlen' : (b ++ ys).length < bucketHead2Size
      · rw [if_pos hlen', htake, if_pos ⟨by rw [List.length_append]; omega, hshort.2⟩]
      · rw [if_neg hlen', BucketHead2.signature_ofBytes, List.take_take,
          show min 8 bucketHead2Size = 8 from rfl, htake,
          if_pos ((signature_ne_iff hshort.1).mpr hshort.2)]
    · rw [if_neg hlen, if_neg (by rw [List.length_append]; omega),
        List.take_append_of_le_length (by omega)]

theorem recvStep_stable : Drain.Stable (recvStep (τ := τ) (κ := κ) maxPacketSize cmds) where
  next_le h := by
    rcases recvStep_eq_next h with ⟨-, -, hk, -⟩ | ⟨-, rfl, hk, -⟩ <;> exact hk
  next_append ys h := by
    rw [recvStep_append ys (by rw [h]; exact nofun), h]
  fail_le h := by
    rcases recvStep_eq_fail h with ⟨-, -, hk, -⟩ | ⟨-, rfl, -⟩ | ⟨-, rfl, hk, -⟩
    · exact hk
    · exact Nat.zero_le _
    · exact hk
  fail_append ys h := by
    rw [recvStep_append ys (by rw [h]; exact nofun), h]

theorem recvStep_closeCalled (h : recvStep maxPacketSize cmds s b = .next s' k ∨
    recvStep maxPacketSize cmds s b = .fail s' k) : s'.closeCalled = s.closeCalled := by
  rcases h with h | h
  · rcases recvStep_eq_next h with ⟨-, -, -, -, rfl⟩ | ⟨-, -, -, -, -, rfl⟩
    · exact (LevinState.handlePacket_frame _).2
    · rfl
  · rcases recvStep_eq_fail h with ⟨-, -, -, -, rfl⟩ | ⟨-, -, rfl, -⟩ | ⟨-, -, -, -, rfl⟩
    · exact (LevinState.handlePacket_frame _).2
    · rfl
    · rfl

theorem run_closeCalled (s : LevinState τ κ) (b : List UInt8) :
    (Drain.run (recvStep maxPacketSize cmds) recvMeasure s b).2.1.closeCalled = s.closeCalled := by
  refine Drain.run_induct recvStep_decreasing
    (fun s _ r => r.2.1.closeCalled = s.closeCalled) ?_ ?_ ?_ s b
  · intro _ _ _
    rfl
  · intro s b s' k hstep ih
    exact ih.trans (recvStep_closeCalled (.inl hstep))
  · intro s b s' k hstep
    exact recvStep_closeCalled (.inr hstep)

theorem recvStep_head_nil (hs : s.state = .head) : recvStep maxPacketSize cmds s [] = .wait := by
  unfold recvStep
  rw [hs]
  rfl

end Step

/-! ## A stream of packets -/

/-- A packet on the wire: its header, then its body. -/
def packetBytes (p : BucketHead2 × List UInt8) : List UInt8 := p.1.toBytes ++ p.2

/-- A packet as a sender writes it: the levin signature, m_cb the length of the body, and a body
within the packet limit. -/
def PacketOk (maxPacketSize : Nat) (p : BucketHead2 × List UInt8) : Prop :=
  p.1.signature = levinSignature ∧ p.1.cb.toNat = p.2.length ∧ p.2.length ≤ maxPacketSize

instance (maxPacketSize : Nat) : DecidablePred (PacketOk maxPacketSize) :=
  fun _ => inferInstanceAs (Decidable (_ ∧ _ ∧ _))

section Packets

variable {τ κ : Type} {maxPacketSize : Nat} {cmds : LevinCommandsHandler τ} {s : LevinState τ κ}

theorem BucketHead2.ofBytes_take_toBytes_append (h : BucketHead2) (rest : List UInt8) :
    BucketHead2.ofBytes ((h.toBytes ++ rest).take bucketHead2Size) = h := by
  have hround := BucketHead2.ofBytes_toBytes_append h []
  rw [List.append_nil] at hround
  rwa [List.take_left' (BucketHead2.length_toBytes h)]

theorem recvStep_head_packet {p : BucketHead2 × List UInt8} (hs : s.state = .head)
    (hp : PacketOk maxPacketSize p) (rest : List UInt8) :
    recvStep maxPacketSize cmds s (packetBytes p ++ rest) =
      .next { s with currentHead := p.1, state := .body,
                     oponentProtocolVer := p.1.protocolVersion.toInt32 } bucketHead2Size := by
  have hlen : ¬(packetBytes p ++ rest).length < bucketHead2Size := by
    simp [packetBytes]
  unfold recvStep
  rw [hs]
  dsimp only
  obtain ⟨hsig, hcb, hmax⟩ := hp
  rw [if_neg hlen, packetBytes, List.append_assoc, BucketHead2.ofBytes_take_toBytes_append,
    if_neg (not_not.mpr hsig.symm), if_neg (by omega)]

theorem recvStep_body_packet {body : List UInt8} (hs : s.state = .body)
    (hcb : s.currentHead.cb.toNat = body.length) (rest : List UInt8) :
    recvStep maxPacketSize cmds s (body ++ rest) =
      if (s.handlePacket cmds body).1 then .next { (s.handlePacket cmds body).2 with state := .head } body.length
      else .fail (s.handlePacket cmds body).2 body.length := by
  unfold recvStep
  rw [hs]
  dsimp only
  rw [hcb, if_neg (by simp), List.take_left]

theorem run_packets (ps : List (BucketHead2 × List UInt8)) (hps : ∀ p ∈ ps, PacketOk maxPacketSize p)
    (s : LevinState τ κ) (hs : s.state = .head) :
    (∃ s', Drain.run (recvStep maxPacketSize cmds) recvMeasure s (ps.flatMap packetBytes) =
        (true, s', []) ∧ s'.dispatched = s.dispatched ++ ps ∧ s'.state = .head) ∨
      (∃ s' rest, Drain.run (recvStep maxPacketSize cmds) recvMeasure s (ps.flatMap packetBytes) =
        (false, s', rest) ∧ ∃ k < ps.length, s'.dispatched = s.dispatched ++ ps.take (k + 1)) := by
  induction ps generalizing s with
  | nil =>
    refine .inl ⟨s, ?_, by simp, hs⟩
    rw [List.flatMap_nil, Drain.run_wait (recvStep_head_nil hs)]
  | cons p ps ih =>
    have hp := hps p List.mem_cons_self
    let s₁ : LevinState τ κ := { s with currentHead := p.1, state := .body,
                                        oponentProtocolVer := p.1.protocolVersion.toInt32 }
    have hdisp : (s₁.handlePacket cmds p.2).2.dispatched = s.dispatched ++ [p] :=
      (LevinState.handlePacket_frame p.2).1
    have hbody := @recvStep_body_packet _ _ maxPacketSize cmds s₁ p.2 rfl hp.2.1
      (ps.flatMap packetBytes)
    rw [List.flatMap_cons, Drain.run_next recvStep_decreasing (recvStep_head_packet hs hp _),
      packetBytes, List.append_assoc, List.drop_left' (BucketHead2.length_toBytes p.1)]
    cases hok : (s₁.handlePacket cmds p.2).1
    · rw [hok, if_neg Bool.false_ne_true] at hbody
      refine .inr ⟨_, _, Drain.run_fail hbody, 0, by simp, ?_⟩
      rw [hdisp, List.take_succ_cons, List.take_zero]
    · rw [hok, if_pos rfl] at hbody
      rw [Drain.run_next recvStep_decreasing hbody, List.drop_left]
      rcases ih (fun q hq => hps q (List.mem_cons_of_mem p hq))
          { (s₁.handlePacket cmds p.2).2 with state := .head } rfl with
        ⟨s', hrun, hd, hst⟩ | ⟨s', rest, hrun, k, hk, hd⟩
      · exact .inl ⟨s', hrun, by rw [hd, hdisp, List.append_assoc, List.singleton_append], hst⟩
      · refine .inr ⟨s', rest, hrun, k + 1, by simp [hk], ?_⟩
        rw [hd, hdisp, List.take_succ_cons, List.append_assoc, List.singleton_append]

end Packets

/-! ## handle_recv over chunks -/

namespace AsyncProtocolHandler

variable {τ κ : Type} {maxPacketSize : Nat} {cmds : LevinCommandsHandler τ}

theorem handleRecv_of_open {e : AsyncProtocolHandler τ κ} {chunk : List UInt8}
    (hopen : e.core.closeCalled = false)
    (hlim : e.cacheInBuffer.length + chunk.length ≤ maxPacketSize) :
    e.handleRecv maxPacketSize cmds chunk =
      ((Drain.run (recvStep maxPacketSize cmds) recvMeasure e.core (e.cacheInBuffer ++ chunk)).1,
        { core := (Drain.run (recvStep maxPacketSize cmds) recvMeasure e.core (e.cacheInBuffer ++ chunk)).2.1,
          cacheInBuffer :=
            (Drain.run (recvStep maxPacketSize cmds) recvMeasure e.core (e.cacheInBuffer ++ chunk)).2.2 }) := by
  rw [handleRecv, if_neg (by rw [hopen]; exact Bool.false_ne_true), if_neg (by omega)]

theorem handleRecv_ok {e e₁ : AsyncProtocolHandler τ κ} {chunk : List UInt8}
    (h : e.handleRecv maxPacketSize cmds chunk = (true, e₁)) :
    e.core.closeCalled = false ∧ e.cacheInBuffer.length + chunk.length ≤ maxPacketSize ∧
      Drain.run (recvStep maxPacketSize cmds) recvMeasure e.core (e.cacheInBuffer ++ chunk) =
        (true, e₁.core, e₁.cacheInBuffer) := by
  unfold handleRecv at h
  split at h
  · cases h
  rename_i hopen
  split at h
  · cases h
  rename_i hlim
  simp only [Prod.mk.injEq] at h
  obtain ⟨hok, rfl⟩ := h
  exact ⟨by simpa using hopen, by omega, by rw [← hok]⟩

/-- **Framing.** On a handler that waits for a header with nothing buffered, a stream of
well-formed packets that fits the limit is dispatched packet by packet, each with the header
and body it was sent with: all of them, leaving the handler waiting for the next header with an
empty buffer, or up to the first whose dispatch fails. -/
theorem handleRecv_dispatches_packets (ps : List (BucketHead2 × List UInt8))
    (hps : ∀ p ∈ ps, PacketOk maxPacketSize p) (e : AsyncProtocolHandler τ κ)
    (hs : e.core.state = .head) (hcache : e.cacheInBuffer = []) (hopen : e.core.closeCalled = false)
    (hlim : (ps.flatMap packetBytes).length ≤ maxPacketSize) :
    (∃ e', e.handleRecv maxPacketSize cmds (ps.flatMap packetBytes) = (true, e') ∧
        e'.core.dispatched = e.core.dispatched ++ ps ∧ e'.core.state = .head ∧ e'.cacheInBuffer = []) ∨
      (∃ e', e.handleRecv maxPacketSize cmds (ps.flatMap packetBytes) = (false, e') ∧
        ∃ k < ps.length, e'.core.dispatched = e.core.dispatched ++ ps.take (k + 1)) := by
  rw [handleRecv_of_open hopen (by rw [hcache, List.length_nil, Nat.zero_add]; exact hlim), hcache,
    List.nil_append]
  rcases @run_packets _ _ maxPacketSize cmds ps hps e.core hs with
    ⟨s', hrun, hd, hst⟩ | ⟨s', rest, hrun, k, hk, hd⟩
  · exact .inl ⟨_, by rw [hrun], hd, hst, rfl⟩
  · exact .inr ⟨_, by rw [hrun], k, hk, hd⟩

def countingCommands : LevinCommandsHandler Nat where
  invoke _ _ n := (levinOk, ⟨[], by decide⟩, n)
  notify _ _ n := n + 1

def freshHandler : AsyncProtocolHandler Nat Nat where
  core :=
    { state := .head, currentHead := requestHead 0 ⟨[], by decide⟩ false, oponentProtocolVer := 0,
      invokeResponseHandlers := [], closeCalled := false, waitCount := 0, node := 0,
      wasShutdown := false, sendQue := [], dispatched := [], sentPackets := [], invokes := [],
      answered := [], callbacks := [] }
  cacheInBuffer := []

def pingPacket : BucketHead2 × List UInt8 := (requestHead 1001 ⟨[5, 6], by decide⟩ false, [5, 6])

theorem handleRecv_dispatches_packets_ping :
    (∀ p ∈ [pingPacket, pingPacket], PacketOk 100 p) ∧ freshHandler.core.state = .head ∧
      freshHandler.cacheInBuffer = [] ∧ freshHandler.core.closeCalled = false ∧
      ([pingPacket, pingPacket].flatMap packetBytes).length ≤ 100 ∧
      ((∃ e', freshHandler.handleRecv 100 countingCommands ([pingPacket, pingPacket].flatMap packetBytes) =
          (true, e') ∧ e'.core.dispatched = freshHandler.core.dispatched ++ [pingPacket, pingPacket] ∧
          e'.core.state = .head ∧ e'.cacheInBuffer = []) ∨
        (∃ e', freshHandler.handleRecv 100 countingCommands ([pingPacket, pingPacket].flatMap packetBytes) =
          (false, e') ∧ ∃ k < [pingPacket, pingPacket].length,
            e'.core.dispatched = freshHandler.core.dispatched ++ [pingPacket, pingPacket].take (k + 1))) := by
  have hps : ∀ p ∈ [pingPacket, pingPacket], PacketOk 100 p := by decide
  have hlim : ([pingPacket, pingPacket].flatMap packetBytes).length ≤ 100 := by decide
  exact ⟨hps, rfl, rfl, rfl, hlim,
    handleRecv_dispatches_packets [pingPacket, pingPacket] hps freshHandler rfl rfl rfl hlim⟩

end AsyncProtocolHandler

end PepePrivate.Net
