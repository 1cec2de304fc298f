import PepePrivate.P2P.Peerlist

/-! What the peer list keeps over every run of its calls: no address is on both the white and
the gray list, neither list grows past its limit, and every address on them is one
is_host_allowed accepts. And what append_with_peer_white does with the peer it is given. -/

namespace PepePrivate.P2P

open OrderedIndex

namespace PeerlistManager

variable {α : Type} [DecidableEq α] [NetworkAddress α] {m : PeerlistManager α}

/-- What every call keeps of a peer list. -/
structure Inv (m : PeerlistManager α) : Prop where
  disjoint : ∀ e ∈ m.peersWhite.elems, ∀ e' ∈ m.peersGray.elems, e.adr ≠ e'.adr
  whiteLimit : m.peersWhite.size ≤ p2pLocalWhitePeerlistLimit
  grayLimit : m.peersGray.size ≤ p2pLocalGrayPeerlistLimit
  whiteAllowed : ∀ e ∈ m.peersWhite.elems, m.isHostAllowed e.adr = true
  grayAllowed : ∀ e ∈ m.peersGray.elems, m.isHostAllowed e.adr = true

omit [DecidableEq α] in
theorem isHostAllowed_of_not {ple : PeerlistEntry α} (h : ¬(!m.isHostAllowed ple.adr) = true) :
    m.isHostAllowed ple.adr = true := by
  simpa using h

omit [DecidableEq α] in
theorem Inv.of_lists {m' : PeerlistManager α} (h : m.Inv) (hallow : m'.allowLocalIp = m.allowLocalIp)
    (hwhite : m'.peersWhite = m.peersWhite) (hgray : m'.peersGray = m.peersGray) : m'.Inv := by
  have hhost : m'.isHostAllowed = m.isHostAllowed := by
    funext a
    simp only [isHostAllowed, hallow]
  refine ⟨?_, ?_, ?_, ?_, ?_⟩
  · rw [hwhite, hgray]
    exact h.disjoint
  · rw [hwhite]
    exact h.whiteLimit
  · rw [hgray]
    exact h.grayLimit
  · rw [hwhite, hhost]
    exact h.whiteAllowed
  · rw [hgray, hhost]
    exact h.grayAllowed

theorem Inv.appendWithPeerWhite (h : m.Inv) (ple : PeerlistEntry α) :
    (m.appendWithPeerWhite ple).Inv := by
  unfold PeerlistManager.appendWithPeerWhite
  split_ifs with hallow
  · exact h
  have hallow := isHostAllowed_of_not hallow
  refine ⟨?_, ?_, ?_, ?_, ?_⟩
  · intro e he e' he'
    obtain ⟨he', hne⟩ := Container.mem_eraseId he'
    rcases Container.mem_upsert he with he | rfl
    · exact h.disjoint e he e' he'
    · exact hne.symm
  · exact Container.size_upsert_le ple h.whiteLimit
  · exact le_trans (Container.size_eraseId_le _ _) h.grayLimit
  · intro e he
    rcases Container.mem_upsert he with he | rfl
    · exact h.whiteAllowed e he
    · exact hallow
  · intro e he
    exact h.grayAllowed e (Container.mem_eraseId he).1

theorem Inv.appendWithPeerGray (h : m.Inv) (ple : PeerlistEntry α) :
    (m.appendWithPeerGray ple).Inv := by
  unfold PeerlistManager.appendWithPeerGray
  split_ifs with hallow hwhite
  · exact h
  · exact h
  have hallow := isHostAllowed_of_not hallow
  have hfree := Container.find_eq_none.mp (Option.not_isSome_iff_eq_none.mp hwhite)
  refine ⟨?_, h.whiteLimit, Container.size_upsert_le ple h.grayLimit, h.whiteAllowed, ?_⟩
  · intro e he e' he'
    rcases Container.mem_upsert he' with he' | rfl
    · exact h.disjoint e he e' he'
    · exact hfree e he
  · intro e he
    rcases Container.mem_upsert he with he | rfl
    · exact h.grayAllowed e he
    · exact hallow

omit [DecidableEq α] in
theorem Inv.trimGrayPeerlist (h : m.Inv) : m.trimGrayPeerlist.Inv where
  disjoint e he e' he' := h.disjoint e he e' (Container.mem_trim he')
  whiteLimit := h.whiteLimit
  grayLimit := Container.size_trim_le _ _
  whiteAllowed := h.whiteAllowed
  grayAllowed e he := h.grayAllowed e (Container.mem_trim he)

theorem Inv.foldl_appendWithPeerGray :
    ∀ {m : PeerlistManager α} (outerBs : List (PeerlistEntry α)), m.Inv →
      (outerBs.foldl PeerlistManager.appendWithPeerGray m).Inv
  | _, [], h => h
  | _, ple :: outerBs, h => Inv.foldl_appendWithPeerGray outerBs (h.appendWithPeerGray ple)

theorem Inv.mergePeerlist (h : m.Inv) (outerBs : List (PeerlistEntry α)) :
    (m.mergePeerlist outerBs).Inv :=
  (Inv.foldl_appendWithPeerGray outerBs h).trimGrayPeerlist

theorem Inv.removeFromPeerWhite (h : m.Inv) (pe : PeerlistEntry α) : (m.removeFromPeerWhite pe).Inv where
  disjoint e he e' he' := h.disjoint e (Container.mem_eraseId he).1 e' he'
  whiteLimit := le_trans (Container.size_eraseId_le _ _) h.whiteLimit
  grayLimit := h.grayLimit
  whiteAllowed e he := h.whiteAllowed e (Container.mem_eraseId he).1
  grayAllowed := h.grayAllowed

theorem Inv.removeFromPeerGray (h : m.Inv) (pe : PeerlistEntry α) : (m.removeFromPeerGray pe).Inv where
  disjoint e he e' he' := h.disjoint e he e' (Container.mem_eraseId he').1
  whiteLimit := h.whiteLimit
  grayLimit := le_trans (Container.size_eraseId_le _ _) h.grayLimit
  whiteAllowed := h.whiteAllowed
  grayAllowed e he := h.grayAllowed e (Container.mem_eraseId he).1

theorem Inv.step (h : m.Inv) : ∀ op : PeerlistOp α, (m.step op).Inv
  | .appendWithPeerWhite ple => h.appendWithPeerWhite ple
  | .appendWithPeerGray ple => h.appendWithPeerGray ple
  | .mergePeerlist outerBs => h.mergePeerlist outerBs
  | .setPeerJustSeen .. => h.appendWithPeerWhite _
  | .removeFromPeerWhite pe => h.removeFromPeerWhite pe
  | .removeFromPeerGray pe => h.removeFromPeerGray pe
  | .appendWithPeerAnchor ple => by
    show (m.appendWithPeerAnchor ple).Inv
    unfold PeerlistManager.appendWithPeerAnchor
    split
    · exact h.of_lists rfl rfl rfl
    · exact h
  | .removeFromPeerAnchor addr => h.of_lists rfl rfl rfl
  | .getAndEmptyAnchorPeerlist => h.of_lists rfl rfl rfl

theorem Inv.run (h : m.Inv) (ops : List (PeerlistOp α)) : (m.run ops).Inv := by
  induction ops generalizing m with
  | nil => exact h
  | cons op ops ih => exact ih (h.step op)

/-! ## From init -/

theorem mem_addPeers {β ι κ : Type} [DecidableEq ι] [LinearOrder κ] {adr : β → ι} {key : β → κ} :
    ∀ {dest : Container adr key} {src : List β} {a : β}, a ∈ (addPeers dest src).elems →
      a ∈ dest.elems ∨ a ∈ src
  | _, [], _, ha => .inl ha
  | dest, x :: src, a, ha => by
    have ha' : a ∈ (addPeers (dest.insert x) src).elems := ha
    rcases mem_addPeers ha' with ha | ha
    · rcases Container.mem_insert ha with ha | rfl
      · exact .inl ha
      · exact .inr List.mem_cons_self
    · exact .inr (List.mem_cons_of_mem _ ha)

theorem size_addPeers_le {β ι κ : Type} [DecidableEq ι] [LinearOrder κ] {adr : β → ι} {key : β → κ} :
    ∀ (dest : Container adr key) (src : List β), (addPeers dest src).size ≤ dest.size + src.length
  | _, [] => le_refl _
  | dest, x :: src => by
    have h := size_addPeers_le (dest.insert x) src
    have hx := Container.size_insert_le dest x
    rw [List.length_cons]
    exact le_trans h (by omega)

/-- init on empty lists, from a peer list file whose lists keep to their limits, share no
address and hold only allowed hosts, gives a peer list that every run of calls keeps with no
address on both lists, neither list past its limit, and only allowed hosts. -/
theorem init_run_inv {m m' : PeerlistManager α} {peers : PeerlistTypes α} {allowLocalIp : Bool}
    (hinit : m.init peers allowLocalIp = some m')
    (hwhite : peers.white.length ≤ p2pLocalWhitePeerlistLimit)
    (hgray : peers.gray.length ≤ p2pLocalGrayPeerlistLimit)
    (hallowed : ∀ e ∈ peers.white ++ peers.gray, m'.isHostAllowed e.adr = true)
    (hdisjoint : ∀ e ∈ peers.white, ∀ e' ∈ peers.gray, e.adr ≠ e'.adr) (ops : List (PeerlistOp α)) :
    (m'.run ops).Inv := by
  unfold PeerlistManager.init at hinit
  split_ifs at hinit with hempty
  cases hinit
  obtain ⟨hw, hg, -⟩ : m.peersWhite.elems = [] ∧ m.peersGray.elems = [] ∧ m.peersAnchor.elems = [] := by
    simpa only [not_or, not_not] using hempty
  have hfromWhite : ∀ e ∈ (addPeers m.peersWhite peers.white).elems, e ∈ peers.white := by
    intro e he
    rcases mem_addPeers he with he | he
    · rw [hw] at he
      cases he
    · exact he
  have hfromGray : ∀ e ∈ (addPeers m.peersGray peers.gray).elems, e ∈ peers.gray := by
    intro e he
    rcases mem_addPeers he with he | he
    · rw [hg] at he
      cases he
    · exact he
  refine Inv.run ⟨?_, ?_, ?_, ?_, ?_⟩ ops
  · intro e he e' he'
    exact hdisjoint e (hfromWhite e he) e' (hfromGray e' he')
  · have hsize := size_addPeers_le m.peersWhite peers.white
    have hzero : m.peersWhite.size = 0 := by rw [Container.size, hw, List.length_nil]
    rw [hzero] at hsize
    exact le_trans hsize (by omega)
  · have hsize := size_addPeers_le m.peersGray peers.gray
    have hzero : m.peersGray.size = 0 := by rw [Container.size, hg, List.length_nil]
    rw [hzero] at hsize
    exact le_trans hsize (by omega)
  · intro e he
    exact hallowed e (List.mem_append_left _ (hfromWhite e he))
  · intro e he
    exact hallowed e (List.mem_append_right _ (hfromGray e he))

theorem init_run_inv_loaded :
    (⟨false, Container.empty, Container.empty, Container.empty⟩ : PeerlistManager Ipv4NetworkAddress).init
        ⟨[⟨⟨0x04030201, 18080⟩, 1, 100, 0, 0, 0⟩], [⟨⟨0x08080808, 18080⟩, 2, 50, 0, 0, 0⟩], []⟩ false =
      some ⟨false, addPeers Container.empty [⟨⟨0x08080808, 18080⟩, 2, 50, 0, 0, 0⟩],
        addPeers Container.empty [⟨⟨0x04030201, 18080⟩, 1, 100, 0, 0, 0⟩], addPeers Container.empty []⟩ ∧
      PeerlistManager.Inv (PeerlistManager.run
        (⟨false, addPeers Container.empty [⟨⟨0x08080808, 18080⟩, 2, 50, 0, 0, 0⟩],
          addPeers Container.empty [⟨⟨0x04030201, 18080⟩, 1, 100, 0, 0, 0⟩], addPeers Container.empty []⟩ :
          PeerlistManager Ipv4NetworkAddress)
        [.setPeerJustSeen 2 ⟨0x08080808, 18080⟩ 0 0 0 200]) := by
  have hinit : (⟨false, Container.empty, Container.empty, Container.empty⟩ :
        PeerlistManager Ipv4NetworkAddress).init
        ⟨[⟨⟨0x04030201, 18080⟩, 1, 100, 0, 0, 0⟩], [⟨⟨0x08080808, 18080⟩, 2, 50, 0, 0, 0⟩], []⟩ false =
      some ⟨false, addPeers Container.empty [⟨⟨0x08080808, 18080⟩, 2, 50, 0, 0, 0⟩],
        addPeers Container.empty [⟨⟨0x04030201, 18080⟩, 1, 100, 0, 0, 0⟩], addPeers Container.empty []⟩ :=
    rfl
  exact ⟨hinit, init_run_inv hinit (by decide) (by decide) (by decide) (by decide) _⟩

/-! ## What append_with_peer_white does with its peer -/

/-- append_with_peer_white, for an allowed address and a white list within its limit: the
address leaves the gray list, and the peer is on the white list afterwards unless its address
was new, the white list full, and the peer seen before every white peer; then trim_white_peerlist
takes it out again and the address is on neither list. -/
theorem appendWithPeerWhite_mem_iff (hsize : m.peersWhite.size ≤ p2pLocalWhitePeerlistLimit)
    {ple : PeerlistEntry α} (hallow : m.isHostAllowed ple.adr = true) :
    (∀ e ∈ (m.appendWithPeerWhite ple).peersGray.elems, e.adr ≠ ple.adr) ∧
      (ple ∈ (m.appendWithPeerWhite ple).peersWhite.elems ↔
        ¬((∀ e ∈ m.peersWhite.elems, e.adr ≠ ple.adr) ∧
          m.peersWhite.size = p2pLocalWhitePeerlistLimit ∧
          ∀ e ∈ m.peersWhite.elems, ple.lastSeen < e.lastSeen)) ∧
      (ple ∉ (m.appendWithPeerWhite ple).peersWhite.elems →
        ∀ e ∈ (m.appendWithPeerWhite ple).peersWhite.elems, e.adr ≠ ple.adr) := by
  have hif : ¬(!m.isHostAllowed ple.adr) = true := by simp [hallow]
  simp only [PeerlistManager.appendWithPeerWhite, if_neg hif]
  refine ⟨fun e he => (Container.mem_eraseId he).2, ?_, Container.id_ne_of_not_mem_upsert⟩
  rw [Container.mem_upsert_self_iff hsize (by decide), Container.find_eq_none]

theorem appendWithPeerWhite_mem_iff_gray_peer :
    (Container.empty.insert ⟨⟨0x04030201, 18080⟩, 1, 100, 0, 0, 0⟩ : PeersIndexed Ipv4NetworkAddress).size ≤
        p2pLocalWhitePeerlistLimit ∧
      (⟨false, Container.empty.insert ⟨⟨0x08080808, 18080⟩, 2, 50, 0, 0, 0⟩,
          Container.empty.insert ⟨⟨0x04030201, 18080⟩, 1, 100, 0, 0, 0⟩, Container.empty⟩ :
          PeerlistManager Ipv4NetworkAddress).isHostAllowed ⟨0x08080808, 18080⟩ = true ∧
      (∀ e ∈ ((⟨false, Container.empty.insert ⟨⟨0x08080808, 18080⟩, 2, 50, 0, 0, 0⟩,
          Container.empty.insert ⟨⟨0x04030201, 18080⟩, 1, 100, 0, 0, 0⟩, Container.empty⟩ :
          PeerlistManager Ipv4NetworkAddress).appendWithPeerWhite
            ⟨⟨0x08080808, 18080⟩, 2, 200, 0, 0, 0⟩).peersGray.elems, e.adr ≠ ⟨0x08080808, 18080⟩) ∧
      (⟨⟨0x08080808, 18080⟩, 2, 200, 0, 0, 0⟩ ∈ ((⟨false,
          Container.empty.insert ⟨⟨0x08080808, 18080⟩, 2, 50, 0, 0, 0⟩,
          Container.empty.insert ⟨⟨0x04030201, 18080⟩, 1, 100, 0, 0, 0⟩, Container.empty⟩ :
          PeerlistManager Ipv4NetworkAddress).appendWithPeerWhite
            ⟨⟨0x08080808, 18080⟩, 2, 200, 0, 0, 0⟩).peersWhite.elems ↔
        ¬((∀ e ∈ (Container.empty.insert ⟨⟨0x04030201, 18080⟩, 1, 100, 0, 0, 0⟩ :
            PeersIndexed Ipv4NetworkAddress).elems, e.adr ≠ ⟨0x08080808, 18080⟩) ∧
          (Container.empty.insert ⟨⟨0x04030201, 18080⟩, 1, 100, 0, 0, 0⟩ :
            PeersIndexed Ipv4NetworkAddress).size = p2pLocalWhitePeerlistLimit ∧
          ∀ e ∈ (Container.empty.insert ⟨⟨0x04030201, 18080⟩, 1, 100, 0, 0, 0⟩ :
            PeersIndexed Ipv4NetworkAddress).elems, (200 : Int) < e.lastSeen)) ∧
      (⟨⟨0x08080808, 18080⟩, 2, 200, 0, 0, 0⟩ ∉ ((⟨false,
          Container.empty.insert ⟨⟨0x08080808, 18080⟩, 2, 50, 0, 0, 0⟩,
          Container.empty.insert ⟨⟨0x04030201, 18080⟩, 1, 100, 0, 0, 0⟩, Container.empty⟩ :
          PeerlistManager Ipv4NetworkAddress).appendWithPeerWhite
            ⟨⟨0x08080808, 18080⟩, 2, 200, 0, 0, 0⟩).peersWhite.elems →
        ∀ e ∈ ((⟨false, Container.empty.insert ⟨⟨0x08080808, 18080⟩, 2, 50, 0, 0, 0⟩,
          Container.empty.insert ⟨⟨0x04030201, 18080⟩, 1, 100, 0, 0, 0⟩, Container.empty⟩ :
          PeerlistManager Ipv4NetworkAddress).appendWithPeerWhite
            ⟨⟨0x08080808, 18080⟩, 2, 200, 0, 0, 0⟩).peersWhite.elems, e.adr ≠ ⟨0x08080808, 18080⟩) :=
  ⟨by decide, by decide, appendWithPeerWhite_mem_iff (by decide) (by decide)⟩

end PeerlistManager

end PepePrivate.P2P
