import PepePrivate.Net.LevinFraming

/-! The callbacks of async invokes, over every interleaving of what can happen to a connection:
bytes arrive, the node invokes or notifies, the handler is closed, the timer of a response
handler expires. A callback is called by a response, by a timeout or by the release of the
protocol, each only for a handler whose timer is still pending, and calling it back stops the
timer; so no callback is called twice. Once the connection is shut down no timer is pending, and
every invoke whose request was sent has been called back exactly once. -/

namespace PepePrivate.Net

/-- What can happen to a connection. -/
inductive LevinEvent (κ : Type)
  | recv (chunk : List UInt8)
  | invoke (command : UInt32) (inBuff : Span) (cb : κ)
  | notify (command : UInt32) (inBuff : Span)
  | close
  | timer (i : Nat)

def LevinEvent.invokeCb {κ : Type} : LevinEvent κ → Option κ
  | .invoke _ _ cb => some cb
  | _ => none

namespace AsyncProtocolHandler

variable {τ κ : Type}

/-- One event on the handler; the codes the calls return go back to their callers. -/
def step (maxPacketSize : Nat) (cmds : LevinCommandsHandler τ) (e : AsyncProtocolHandler τ κ) :
    LevinEvent κ → AsyncProtocolHandler τ κ
  | .recv chunk => (e.handleRecv maxPacketSize cmds chunk).2
  | .invoke command inBuff cb => (e.invokeAsync command inBuff cb).2
  | .notify command inBuff => (e.notify command inBuff).2
  | .close => e.close
  | .timer i => e.timerExpires i

def run (maxPacketSize : Nat) (cmds : LevinCommandsHandler τ) (e : AsyncProtocolHandler τ κ)
    (evs : List (LevinEvent κ)) : AsyncProtocolHandler τ κ :=
  evs.foldl (step maxPacketSize cmds) e

end AsyncProtocolHandler

def AnvokeHandler.Ok {κ : Type} (h : AnvokeHandler κ) : Prop :=
  h.cancelTimerCalled = true → h.timerPending = false ∧ h.timerCancelled = false

namespace LevinState

variable {τ κ : Type}

def calledCbs (s : LevinState τ κ) : List κ := s.callbacks.map CallbackCall.cb

def pendingCbs (s : LevinState τ κ) : List κ :=
  (s.invokeResponseHandlers.filter (·.timerPending)).map (·.cb)

/-- The callbacks called so far, then those that a pending timer may still call. -/
def callNames (s : LevinState τ κ) : List κ := s.calledCbs ++ s.pendingCbs

/-- What every event keeps of the response handlers. -/
structure CallbackInv (s : LevinState τ κ) : Prop where
  handlersOk : ∀ h ∈ s.invokeResponseHandlers, h.Ok
  invokesCalled : ∀ x ∈ s.invokes, x.1 ∈ s.callNames
  shutdownIdle : s.wasShutdown = true → s.pendingCbs = []

/-- A move that keeps the invariant and only moves callbacks from pending to called. -/
def Moves (s s' : LevinState τ κ) : Prop :=
  s.CallbackInv → s'.CallbackInv ∧ s'.callNames.Perm s.callNames

end LevinState

theorem map_filter_set_perm {α β : Type} {l : List α} {i : Nat} {a b : α} {p : α → Bool}
    (f : α → β) (hi : l[i]? = some a) (ha : p a = true) (hb : p b = false) :
    ((l.filter p).map f).Perm (f a :: ((l.set i b).filter p).map f) := by
  induction l generalizing i with
  | nil => cases hi
  | cons x xs ih =>
    cases i with
    | zero =>
      obtain rfl : x = a := by simpa using hi
      simp [ha, hb]
    | succ i =>
      have hrest := ih (by simpa using hi)
      by_cases hx : p x = true
      · simp only [List.set_cons_succ, List.filter_cons, hx, if_true, List.map_cons]
        exact (hrest.cons (f x)).trans (List.Perm.swap _ _ _)
      · simp only [List.set_cons_succ, List.filter_cons, hx]
        exact hrest

namespace AnvokeHandler

variable {κ : Type} {h : AnvokeHandler κ}

theorem cancelTimer_fst (hok : h.Ok) : h.cancelTimer.1 = h.timerPending := by
  unfold cancelTimer
  cases hc : h.cancelTimerCalled
  · rfl
  · simp [(hok hc).1, (hok hc).2]

theorem cancelTimer_snd (hok : h.Ok) (hc : h.cancelTimer.1 = false) :
    h.cancelTimer.2.Ok ∧ h.cancelTimer.2.timerPending = false := by
  unfold cancelTimer at hc ⊢
  cases hcalled : h.cancelTimerCalled
  · simp only [hcalled, Bool.not_false, if_true] at hc ⊢
    exact ⟨fun _ => ⟨rfl, hc⟩, trivial⟩
  · simp only [hcalled, Bool.not_true, Bool.false_eq_true, if_false] at hc ⊢
    exact ⟨hok, (hok hcalled).1⟩

end AnvokeHandler

namespace LevinState

variable {τ κ : Type} {s s' s'' : LevinState τ κ}

theorem Moves.refl (s : LevinState τ κ) : Moves s s := fun hinv => ⟨hinv, List.Perm.refl _⟩

theorem Moves.trans (h₁ : Moves s s') (h₂ : Moves s' s'') : Moves s s'' := by
  intro hinv
  obtain ⟨hinv', hperm'⟩ := h₁ hinv
  obtain ⟨hinv'', hperm''⟩ := h₂ hinv'
  exact ⟨hinv'', hperm''.trans hperm'⟩

theorem moves_of
    (hok : (∀ h ∈ s.invokeResponseHandlers, h.Ok) → ∀ h ∈ s'.invokeResponseHandlers, h.Ok)
    (hperm : s'.callNames.Perm s.callNames) (hinvokes : s'.invokes = s.invokes)
    (hidle : (s.wasShutdown = true → s.pendingCbs = []) → s'.wasShutdown = true → s'.pendingCbs = []) :
    Moves s s' := by
  intro hinv
  refine ⟨⟨hok hinv.handlersOk, ?_, hidle hinv.shutdownIdle⟩, hperm⟩
  intro x hx
  rw [hinvokes] at hx
  exact hperm.symm.subset (hinv.invokesCalled x hx)

theorem moves_of_frame (hh : s'.invokeResponseHandlers = s.invokeResponseHandlers)
    (hc : s'.callbacks = s.callbacks) (hi : s'.invokes = s.invokes)
    (hw : s'.wasShutdown = s.wasShutdown) : Moves s s' := by
  have hpending : s'.pendingCbs = s.pendingCbs := by rw [pendingCbs, pendingCbs, hh]
  have hnames : s'.callNames = s.callNames := by
    rw [callNames, callNames, calledCbs, calledCbs, hc, hpending]
  refine moves_of (by rw [hh]; exact id) (by rw [hnames]) hi ?_
  intro hidle hws
  rw [hpending]
  exact hidle (hw ▸ hws)

theorem moves_handlePacket (cmds : LevinCommandsHandler τ) (buff : List UInt8) :
    Moves s (s.handlePacket cmds buff).2 := by
  rcases @handlePacket_cases _ _ cmds s buff with
    ⟨h, rest, heq, hc, hres⟩ | ⟨h, rest, heq, hc, hres⟩ | ⟨hh, hcb, hi, hw, -, -⟩
  · intro hinv
    have hok : h.Ok := hinv.handlersOk h (by rw [heq]; exact List.mem_cons_self)
    have hpend : h.timerPending = true := (AnvokeHandler.cancelTimer_fst hok).symm.trans hc
    rw [hres]
    refine moves_of ?_ ?_ rfl ?_ hinv
    · intro hok' x hx
      exact hok' x (by rw [heq]; exact List.mem_cons_of_mem h hx)
    · simp [callNames, calledCbs, pendingCbs, finishOuterCall, heq, hpend, CallbackCall.cb]
    · intro hidle hws
      have hnil := hidle hws
      simp [pendingCbs, heq, hpend] at hnil
  · intro hinv
    have hok : h.Ok := hinv.handlersOk h (by rw [heq]; exact List.mem_cons_self)
    have hnp : h.timerPending = false := (AnvokeHandler.cancelTimer_fst hok).symm.trans hc
    obtain ⟨hok₂, hnp₂⟩ := AnvokeHandler.cancelTimer_snd hok hc
    rw [hres]
    refine moves_of ?_ ?_ rfl ?_ hinv
    · intro hok' x hx
      rcases List.mem_cons.mp hx with rfl | hx
      · exact hok₂
      · exact hok' x (by rw [heq]; exact List.mem_cons_of_mem h hx)
    · simp [callNames, calledCbs, pendingCbs, heq, hnp, hnp₂]
    · intro hidle hws
      have hnil := hidle hws
      simpa [pendingCbs, heq, hnp, hnp₂] using hnil
  · exact moves_of_frame hh hcb hi hw

theorem cancelHandler_frame {h : AnvokeHandler κ} (hok : h.Ok) :
    (s.cancelHandler h).invokeResponseHandlers = s.invokeResponseHandlers ∧
      (s.cancelHandler h).invokes = s.invokes ∧ (s.cancelHandler h).wasShutdown = s.wasShutdown ∧
      (s.cancelHandler h).calledCbs = s.calledCbs ++ if h.timerPending then [h.cb] else [] := by
  unfold cancelHandler
  rw [AnvokeHandler.cancelTimer_fst hok]
  cases h.timerPending <;> simp [calledCbs, finishOuterCall, CallbackCall.cb]

theorem foldl_cancelHandler (hs : List (AnvokeHandler κ)) (hok : ∀ h ∈ hs, h.Ok)
    (s : LevinState τ κ) :
    (hs.foldl cancelHandler s).invokeResponseHandlers = s.invokeResponseHandlers ∧
      (hs.foldl cancelHandler s).invokes = s.invokes ∧
      (hs.foldl cancelHandler s).wasShutdown = s.wasShutdown ∧
      (hs.foldl cancelHandler s).calledCbs =
        s.calledCbs ++ (hs.filter (·.timerPending)).map (·.cb) := by
  induction hs generalizing s with
  | nil => simp
  | cons h hs ih =>
    obtain ⟨hl, hi, hw, hc⟩ := ih (fun x hx => hok x (List.mem_cons_of_mem h hx)) (s.cancelHandler h)
    obtain ⟨hl₁, hi₁, hw₁, hc₁⟩ := cancelHandler_frame (s := s) (hok h List.mem_cons_self)
    rw [List.foldl_cons, hl, hi, hw, hc, hl₁, hi₁, hw₁, hc₁]
    refine ⟨rfl, rfl, rfl, ?_⟩
    cases hp : h.timerPending <;> simp [hp]

theorem releaseProtocol_eq (hok : ∀ h ∈ s.invokeResponseHandlers, h.Ok) :
    s.releaseProtocol.invokeResponseHandlers = [] ∧ s.releaseProtocol.invokes = s.invokes ∧
      s.releaseProtocol.wasShutdown = s.wasShutdown ∧ s.releaseProtocol.calledCbs = s.callNames := by
  obtain ⟨hl, hi, hw, hc⟩ :=
    foldl_cancelHandler s.invokeResponseHandlers hok { s with invokeResponseHandlers := [] }
  exact ⟨hl, hi, hw, hc⟩

theorem moves_shutdown : Moves s s.shutdown := by
  unfold shutdown
  split
  · exact Moves.refl s
  · intro hinv
    obtain ⟨hl, hi, -, hc⟩ :=
      releaseProtocol_eq (s := { s with wasShutdown := true }) hinv.handlersOk
    have hpending : ({ s with wasShutdown := true } : LevinState τ κ).releaseProtocol.pendingCbs = [] := by
      rw [pendingCbs, hl]
      rfl
    refine moves_of ?_ ?_ hi ?_ hinv
    · intro _ x hx
      rw [hl] at hx
      exact absurd hx List.not_mem_nil
    · rw [callNames, hc, hpending, List.append_nil]
      rfl
    · exact fun _ _ => hpending

theorem moves_expire {i : Nat} {h : AnvokeHandler κ} (hi : s.invokeResponseHandlers[i]? = some h)
    (hp : h.timerPending = true) :
    Moves s { s with
      invokeResponseHandlers := s.invokeResponseHandlers.set i { h with timerPending := false },
      callbacks := s.callbacks ++ [CallbackCall.error h.cb levinErrorConnectionTimedout] } := by
  intro hinv
  have hok : h.Ok := hinv.handlersOk h (List.mem_of_getElem? hi)
  have hperm := map_filter_set_perm (·.cb) hi hp (b := { h with timerPending := false }) rfl
  refine moves_of ?_ ?_ rfl ?_ hinv
  · intro hok' x hx
    rcases List.mem_or_eq_of_mem_set hx with hx | rfl
    · exact hok' x hx
    · intro hc
      exact absurd (hok hc).1 (by simp [hp])
  · simp only [callNames, calledCbs, pendingCbs, List.map_append, List.map_cons, List.map_nil,
      CallbackCall.cb, List.append_assoc, List.singleton_append]
    exact (hperm.symm.append_left _)
  · intro hidle hws
    have hnil := hidle hws
    rw [pendingCbs] at hnil
    rw [hnil] at hperm
    exact absurd hperm.length_eq (by simp)

end LevinState

namespace AsyncProtocolHandler

variable {τ κ : Type} {e : AsyncProtocolHandler τ κ}

open LevinState

theorem moves_close : Moves e.core e.close.core := by
  have hframe : Moves e.core ({ e.core with closeCalled := true } : LevinState τ κ) :=
    moves_of_frame rfl rfl rfl rfl
  exact hframe.trans moves_shutdown

theorem moves_timerExpires (i : Nat) : Moves e.core (e.timerExpires i).core := by
  unfold timerExpires
  split
  · rename_i h hi
    split
    · rename_i hp
      dsimp only
      have hclose := @moves_close _ _
        ⟨{ e.core with
            invokeResponseHandlers := e.core.invokeResponseHandlers.set i { h with timerPending := false },
            callbacks := e.core.callbacks ++ [CallbackCall.error h.cb levinErrorConnectionTimedout] },
          e.cacheInBuffer⟩
      exact ((moves_expire hi hp).trans hclose).trans (moves_of_frame rfl rfl rfl rfl)
    · exact Moves.refl _
  · exact Moves.refl _

theorem startOuterCall_eq_some {s s' : LevinState τ κ} (h : s.startOuterCall = some s') :
    s' = { s with waitCount := s.waitCount + 1 } := by
  unfold LevinState.startOuterCall at h
  split at h
  · cases h
  · exact (Option.some.inj h).symm

theorem moves_notify (command : UInt32) (inBuff : Span) :
    Moves e.core (e.notify command inBuff).2.core := by
  unfold notify
  split
  · exact Moves.refl _
  · rename_i s hs
    obtain rfl := startOuterCall_eq_some hs
    dsimp only
    split
    · exact moves_of_frame rfl rfl rfl rfl
    · rename_i s₁ h₁
      obtain rfl := LevinState.doSend_eq_some h₁
      split
      · exact moves_of_frame rfl rfl rfl rfl
      · rename_i s₂ h₂
        obtain rfl := LevinState.doSend_eq_some h₂
        exact moves_of_frame rfl rfl rfl rfl

theorem invokeAsync_of_wasShutdown (command : UInt32) (inBuff : Span) (cb : κ)
    (h : e.core.wasShutdown = true) : (e.invokeAsync command inBuff cb).2 = e := by
  simp [invokeAsync, LevinState.startOuterCall, h]

theorem invokeAsync_core (command : UInt32) (inBuff : Span) (cb : κ)
    (h : e.core.wasShutdown = false) :
    (e.invokeAsync command inBuff cb).2.core.invokeResponseHandlers =
        e.core.invokeResponseHandlers ++
          [{ cb, command, timerStarted := true, timerPending := true, cancelTimerCalled := false,
             timerCancelled := false }] ∧
      (e.invokeAsync command inBuff cb).2.core.callbacks = e.core.callbacks ∧
      (e.invokeAsync command inBuff cb).2.core.invokes = e.core.invokes ++ [(cb, command, inBuff.data)] ∧
      (e.invokeAsync command inBuff cb).2.core.wasShutdown = false := by
  simp [invokeAsync, asyncInvokeBody, LevinState.startOuterCall, LevinState.doSend,
    LevinState.addInvokeResponseHandler, LevinState.finishOuterCall, h]

theorem invokeAsync_moves (command : UInt32) (inBuff : Span) (cb : κ) (hinv : e.core.CallbackInv) :
    (e.invokeAsync command inBuff cb).2.core.CallbackInv ∧
      (e.invokeAsync command inBuff cb).2.core.callNames.Subperm (e.core.callNames ++ [cb]) := by
  cases hws : e.core.wasShutdown
  · obtain ⟨hl, hc, hi, hw⟩ := invokeAsync_core command inBuff cb hws
    have hnames : (e.invokeAsync command inBuff cb).2.core.callNames = e.core.callNames ++ [cb] := by
      simp [callNames, calledCbs, pendingCbs, hl, hc]
    refine ⟨⟨?_, ?_, ?_⟩, by rw [hnames]⟩
    · rw [hl]
      intro x hx
      rcases List.mem_append.mp hx with hx | hx
      · exact hinv.handlersOk x hx
      · rw [List.mem_singleton.mp hx]
        exact fun hcalled => absurd hcalled Bool.false_ne_true
    · rw [hi, hnames]
      intro x hx
      rcases List.mem_append.mp hx with hx | hx
      · exact List.mem_append_left _ (hinv.invokesCalled x hx)
      · rw [List.mem_singleton.mp hx]
        exact List.mem_append_right _ (List.mem_singleton_self _)
    · rw [hw]
      exact fun hdown => absurd hdown Bool.false_ne_true
  · rw [invokeAsync_of_wasShutdown command inBuff cb hws]
    exact ⟨hinv, (List.sublist_append_left _ _).subperm⟩

end AsyncProtocolHandler

namespace LevinState

variable {τ κ : Type} {maxPacketSize : Nat} {cmds : LevinCommandsHandler τ} {s s' : LevinState τ κ}
  {b : List UInt8} {k : Nat}

theorem moves_recvStep (h : recvStep maxPacketSize cmds s b = .next s' k ∨
    recvStep maxPacketSize cmds s b = .fail s' k) : Moves s s' := by
  rcases h with h | h
  · rcases recvStep_eq_next h with ⟨-, -, -, -, rfl⟩ | ⟨-, -, -, -, -, rfl⟩
    · exact (moves_handlePacket cmds _).trans (moves_of_frame rfl rfl rfl rfl)
    · exact moves_of_frame rfl rfl rfl rfl
  · rcases recvStep_eq_fail h with ⟨-, -, -, -, rfl⟩ | ⟨-, -, rfl, -⟩ | ⟨-, -, -, -, rfl⟩
    · exact moves_handlePacket cmds _
    · exact Moves.refl _
    · exact moves_of_frame rfl rfl rfl rfl

theorem moves_run (s : LevinState τ κ) (b : List UInt8) :
    Moves s (Drain.run (recvStep maxPacketSize cmds) recvMeasure s b).2.1 := by
  refine Drain.run_induct recvStep_decreasing (fun s _ r => Moves s r.2.1) ?_ ?_ ?_ s b
  · intro s _ _
    exact Moves.refl s
  · intro s b s' k hstep ih
    exact (moves_recvStep (.inl hstep)).trans ih
  · intro s b s' k hstep
    exact moves_recvStep (.inr hstep)

theorem callbackInv_of_fresh (hh : s.invokeResponseHandlers = []) (hc : s.callbacks = [])
    (hi : s.invokes = []) : s.CallbackInv ∧ s.callNames = [] := by
  have hpending : s.pendingCbs = [] := by rw [pendingCbs, hh]; rfl
  refine ⟨⟨?_, ?_, fun _ => hpending⟩, ?_⟩
  · rw [hh]
    exact fun _ hx => absurd hx List.not_mem_nil
  · rw [hi]
    exact fun _ hx => absurd hx List.not_mem_nil
  · rw [callNames, calledCbs, hc, hpending]
    rfl

end LevinState

namespace AsyncProtocolHandler

variable {τ κ : Type} {maxPacketSize : Nat} {cmds : LevinCommandsHandler τ}
  {e : AsyncProtocolHandler τ κ}

open LevinState

theorem moves_handleRecv (chunk : List UInt8) :
    Moves e.core (e.handleRecv maxPacketSize cmds chunk).2.core := by
  unfold handleRecv
  split
  · exact Moves.refl _
  · split
    · exact Moves.refl _
    · exact moves_run _ _

theorem step_callbackInv (ev : LevinEvent κ) (hinv : e.core.CallbackInv) :
    (e.step maxPacketSize cmds ev).core.CallbackInv ∧
      (e.step maxPacketSize cmds ev).core.callNames.Subperm (e.core.callNames ++ ev.invokeCb.toList) := by
  have hmoves : ∀ {e' : AsyncProtocolHandler τ κ}, Moves e.core e'.core →
      e'.core.CallbackInv ∧ e'.core.callNames.Subperm (e.core.callNames ++ []) := by
    intro e' hm
    obtain ⟨hinv', hperm⟩ := hm hinv
    exact ⟨hinv', by rw [List.append_nil]; exact hperm.subperm⟩
  cases ev with
  | recv chunk => exact hmoves (moves_handleRecv chunk)
  | invoke command inBuff cb => exact invokeAsync_moves command inBuff cb hinv
  | notify command inBuff => exact hmoves (moves_notify command inBuff)
  | close => exact hmoves moves_close
  | timer i => exact hmoves (moves_timerExpires i)

theorem run_callbackInv (evs : List (LevinEvent κ)) (e : AsyncProtocolHandler τ κ)
    (hinv : e.core.CallbackInv) :
    (e.run maxPacketSize cmds evs).core.CallbackInv ∧
      (e.run maxPacketSize cmds evs).core.callNames.Subperm
        (e.core.callNames ++ evs.filterMap LevinEvent.invokeCb) := by
  induction evs generalizing e with
  | nil => exact ⟨hinv, by rw [List.filterMap_nil, List.append_nil]; exact List.Subperm.refl _⟩
  | cons ev evs ih =>
    obtain ⟨hinv₁, hsub₁⟩ := @step_callbackInv _ _ maxPacketSize cmds e ev hinv
    obtain ⟨hinv₂, hsub₂⟩ := ih (e.step maxPacketSize cmds ev) hinv₁
    have hnames : (ev :: evs).filterMap LevinEvent.invokeCb =
        ev.invokeCb.toList ++ evs.filterMap LevinEvent.invokeCb := by
      cases hcb : ev.invokeCb <;> simp [hcb]
    refine ⟨hinv₂, ?_⟩
    rw [hnames, ← List.append_assoc]
    exact hsub₂.trans ((List.subperm_append_right _).mpr hsub₁)

theorem run_calledCbs_nodup (evs : List (LevinEvent κ)) (e : AsyncProtocolHandler τ κ)
    (hhandlers : e.core.invokeResponseHandlers = []) (hcallbacks : e.core.callbacks = [])
    (hinvokes : e.core.invokes = []) (hnames : (evs.filterMap LevinEvent.invokeCb).Nodup) :
    (e.run maxPacketSize cmds evs).core.CallbackInv ∧
      (e.run maxPacketSize cmds evs).core.callNames.Nodup ∧
      (e.run maxPacketSize cmds evs).core.callNames ⊆ evs.filterMap LevinEvent.invokeCb := by
  obtain ⟨hinv, hnil⟩ := callbackInv_of_fresh hhandlers hcallbacks hinvokes
  obtain ⟨hinv', hsub⟩ := @run_callbackInv _ _ maxPacketSize cmds evs e hinv
  rw [hnil, List.nil_append] at hsub
  obtain ⟨l, hperm, hl⟩ := hsub
  exact ⟨hinv', hperm.nodup (hl.nodup hnames), fun x hx => hl.subset (hperm.symm.subset hx)⟩

/-- **At most once.** From a handler with no response handler, no callback called and no
request sent, over any events in which each async invoke has its own callback, every callback
called is one of an invoke, and none is called twice. -/
theorem callbacks_at_most_once (evs : List (LevinEvent κ)) (e : AsyncProtocolHandler τ κ)
    (hhandlers : e.core.invokeResponseHandlers = []) (hcallbacks : e.core.callbacks = [])
    (hinvokes : e.core.invokes = []) (hnames : (evs.filterMap LevinEvent.invokeCb).Nodup) :
    ((e.run maxPacketSize cmds evs).core.callbacks.map CallbackCall.cb).Nodup ∧
      ∀ cb ∈ (e.run maxPacketSize cmds evs).core.callbacks.map CallbackCall.cb,
        cb ∈ evs.filterMap LevinEvent.invokeCb := by
  obtain ⟨-, hnodup, hsub⟩ :=
    @run_calledCbs_nodup _ _ maxPacketSize cmds evs e hhandlers hcallbacks hinvokes hnames
  rw [callNames, calledCbs] at hnodup hsub
  exact ⟨(List.nodup_append.mp hnodup).1, fun cb hcb => hsub (List.mem_append_left _ hcb)⟩

/-- **Exactly once, once shut down.** On the same runs, once the connection is shut down every
async invoke whose request was sent has been called back exactly once. -/
theorem callbacks_exactly_once_after_shutdown [DecidableEq κ] (evs : List (LevinEvent κ))
    (e : AsyncProtocolHandler τ κ) (hhandlers : e.core.invokeResponseHandlers = [])
    (hcallbacks : e.core.callbacks = []) (hinvokes : e.core.invokes = [])
    (hnames : (evs.filterMap LevinEvent.invokeCb).Nodup)
    (hdown : (e.run maxPacketSize cmds evs).core.wasShutdown = true) :
    ∀ x ∈ (e.run maxPacketSize cmds evs).core.invokes,
      ((e.run maxPacketSize cmds evs).core.callbacks.map CallbackCall.cb).count x.1 = 1 := by
  obtain ⟨hinv, hnodup, -⟩ :=
    @run_calledCbs_nodup _ _ maxPacketSize cmds evs e hhandlers hcallbacks hinvokes hnames
  intro x hx
  have hmem := hinv.invokesCalled x hx
  rw [callNames, hinv.shutdownIdle hdown, List.append_nil, calledCbs] at hmem
  rw [callNames, hinv.shutdownIdle hdown, List.append_nil, calledCbs] at hnodup
  exact List.count_eq_one_of_mem hnodup hmem

def twoInvokes : List (LevinEvent Nat) :=
  [.invoke 7 ⟨[1], by decide⟩ 0, .invoke 8 ⟨[2], by decide⟩ 1, .timer 0]

example : (freshHandler.run 100 countingCommands twoInvokes).core.callbacks.map CallbackCall.cb = [0, 1] := by
  decide

theorem callbacks_at_most_once_two_invokes :
    freshHandler.core.invokeResponseHandlers = [] ∧ freshHandler.core.callbacks = [] ∧
      freshHandler.core.invokes = [] ∧ (twoInvokes.filterMap LevinEvent.invokeCb).Nodup ∧
      ((freshHandler.run 100 countingCommands twoInvokes).core.callbacks.map CallbackCall.cb).Nodup ∧
      ∀ cb ∈ (freshHandler.run 100 countingCommands twoInvokes).core.callbacks.map CallbackCall.cb,
        cb ∈ twoInvokes.filterMap LevinEvent.invokeCb := by
  have hnames : (twoInvokes.filterMap LevinEvent.invokeCb).Nodup := by decide
  exact ⟨rfl, rfl, rfl, hnames, callbacks_at_most_once twoInvokes freshHandler rfl rfl rfl hnames⟩

theorem callbacks_exactly_once_after_shutdown_two_invokes :
    freshHandler.core.invokeResponseHandlers = [] ∧ freshHandler.core.callbacks = [] ∧
      freshHandler.core.invokes = [] ∧ (twoInvokes.filterMap LevinEvent.invokeCb).Nodup ∧
      (freshHandler.run 100 countingCommands twoInvokes).core.wasShutdown = true ∧
      ∀ x ∈ (freshHandler.run 100 countingCommands twoInvokes).core.invokes,
        ((freshHandler.run 100 countingCommands twoInvokes).core.callbacks.map CallbackCall.cb).count
          x.1 = 1 := by
  have hnames : (twoInvokes.filterMap LevinEvent.invokeCb).Nodup := by decide
  have hdown : (freshHandler.run 100 countingCommands twoInvokes).core.wasShutdown = true := by
    decide
  exact ⟨rfl, rfl, rfl, hnames, hdown,
    callbacks_exactly_once_after_shutdown twoInvokes freshHandler rfl rfl rfl hnames hdown⟩

end AsyncProtocolHandler

end PepePrivate.Net
