import PepePrivate.Serialization.TxExtra

/-! sort_tx_extra and remove_field_from_tx_extra of cryptonote_format_utils.cpp. Both read the
fields of a tx_extra with the loop of parse_tx_extra and write them back through a new
binary_archive: sorted by type, or without the fields of one type. -/

namespace PepePrivate.Serialization

inductive TxExtraFieldType
  | padding
  | pubKey
  | nonce
  | mergeMiningTag
  | additionalPubKeys
  | mysteriousMinergate
  deriving DecidableEq, Repr

def TxExtraField.type : TxExtraField → TxExtraFieldType
  | .padding _ => .padding
  | .pubKey _ => .pubKey
  | .nonce _ => .nonce
  | .mergeMiningTag _ _ => .mergeMiningTag
  | .additionalPubKeys _ => .additionalPubKeys
  | .mysteriousMinergate _ => .mysteriousMinergate

def TxExtraFieldType.tag : TxExtraFieldType → UInt8
  | .padding => txExtraTagPadding
  | .pubKey => txExtraTagPubkey
  | .nonce => txExtraNonce
  | .mergeMiningTag => txExtraMergeMiningTag
  | .additionalPubKeys => txExtraTagAdditionalPubkeys
  | .mysteriousMinergate => txExtraMysteriousMinergateTag

def writeFieldBody : TxExtraField → Option (List UInt8)
  | .padding size =>
    if txExtraPaddingMaxCount < size then none else some (List.replicate (size - 1) 0)
  | .pubKey pubKey => some pubKey.val
  | .nonce nonce =>
    if txExtraNonceMaxCount < nonce.length then none else some (writeString nonce)
  | .mergeMiningTag depth merkleRoot => some (writeString (writeVarint depth ++ merkleRoot.val))
  | .additionalPubKeys data => some (writeVarint data.length ++ (data.map (·.val)).flatten)
  | .mysteriousMinergate data => some (writeString data)

/-- pick<T>: while a field of type T is left, write the tag and the first such field, and erase
it; none where a serializer fails. -/
def pick (type : TxExtraFieldType) (tag : UInt8) (fields : List TxExtraField) :
    Option (List UInt8 × List TxExtraField) :=
  match _h : fields.find? (·.type == type) with
  | none => some ([], fields)
  | some field =>
    match writeFieldBody field with
    | none => none
    | some body => (pick type tag (fields.erase field)).map fun r => (tag :: body ++ r.1, r.2)
termination_by fields.length
decreasing_by
  have hmem := List.mem_of_find?_eq_some _h
  rw [List.length_erase_of_mem hmem]
  have := List.length_pos_of_mem hmem
  omega

def sortOrder : List (TxExtraFieldType × UInt8) :=
  [(.pubKey, txExtraTagPubkey), (.additionalPubKeys, txExtraTagAdditionalPubkeys),
    (.nonce, txExtraNonce), (.mergeMiningTag, txExtraMergeMiningTag),
    (.mysteriousMinergate, txExtraMysteriousMinergateTag), (.padding, txExtraTagPadding)]

def pickAll : List (TxExtraFieldType × UInt8) → List TxExtraField →
    Option (List UInt8 × List TxExtraField)
  | [], fields => some ([], fields)
  | (type, tag) :: order, fields =>
    match pick type tag fields with
    | none => none
    | some (bytes, fields) => (pickAll order fields).map fun r => (bytes ++ r.1, r.2)

def readFieldsPartial (input : List UInt8) : List TxExtraField × Option (List UInt8) :=
  match _h : readField input with
  | none => ([], some input)
  | some (field, rest) =>
    if rest = [] then ([field], none)
    else
      let r := readFieldsPartial rest
      (field :: r.1, r.2)
termination_by input.length
decreasing_by exact readField_rest_lt _h

/-- sort_tx_extra; none where it returns false. With allow_partial the fields read before a
failed read are sorted and the unread bytes appended. -/
def sortTxExtra (txExtra : List UInt8) (allowPartial : Bool) : Option (List UInt8) :=
  if txExtra = [] then some []
  else
    let read := readFieldsPartial txExtra
    -- a failed read, and then check_stream_state, return false unless allow_partial
    if read.2.isSome && !allowPartial then none
    else
      match pickAll sortOrder read.1 with
      | none => none
      | some (sorted, fields) =>
        -- a field of a type no pick names
        if fields ≠ [] then none
        else some (sorted ++ if allowPartial then read.2.getD [] else [])

def writeAll (fields : List TxExtraField) : List UInt8 :=
  fields.flatMap fun field => (writeField field).getD []

/-- remove_field_from_tx_extra; none where it returns false and leaves tx_extra as it was. -/
def removeFieldFromTxExtra (txExtra : List UInt8) (type : TxExtraFieldType) :
    Option (List UInt8) :=
  if txExtra = [] then some []
  else (parseFields txExtra).map fun fields => writeAll (fields.filter (·.type != type))

/-- The order sort_tx_extra writes fields in: by type in the order of the picks, and within a
type in their own order. -/
def sortByTag (fields : List TxExtraField) : List TxExtraField :=
  sortOrder.flatMap fun p => fields.filter (·.type == p.1)

/-! ## Writing fields back -/

theorem writeField_eq_body (field : TxExtraField) :
    writeField field = (writeFieldBody field).map (field.type.tag :: ·) := by
  cases field <;> simp only [writeField, writeFieldBody, TxExtraField.type, TxExtraFieldType.tag]
  case padding size => split_ifs <;> rfl
  case nonce nonce => split_ifs <;> rfl
  all_goals rfl

theorem isPadding_eq_type (field : TxExtraField) :
    field.isPadding = (field.type == .padding) := by
  cases field <;> rfl

@[simp] theorem writeAll_nil : writeAll [] = [] := rfl

@[simp] theorem writeAll_append (fields fields' : List TxExtraField) :
    writeAll (fields ++ fields') = writeAll fields ++ writeAll fields' := List.flatMap_append

theorem writeAll_cons (field : TxExtraField) (fields : List TxExtraField) :
    writeAll (field :: fields) = (writeField field).getD [] ++ writeAll fields := List.flatMap_cons

theorem writeFields_eq_writeAll {fields : List TxExtraField}
    (hw : ∀ field ∈ fields, (writeField field).isSome = true) :
    writeFields fields = some (writeAll fields) := by
  induction fields with
  | nil => rfl
  | cons field fields ih =>
    obtain ⟨b, hb⟩ := Option.isSome_iff_exists.mp (hw field List.mem_cons_self)
    rw [writeFields, hb, ih fun f hf => hw f (List.mem_cons_of_mem _ hf), writeAll_cons, hb]
    rfl

theorem parseTxExtra_writeAll {fields : List TxExtraField} (hp : Parsed fields) :
    parseTxExtra (writeAll fields) = some fields := by
  obtain ⟨hok, hpairwise⟩ := hp
  rcases List.eq_nil_or_concat' fields with rfl | ⟨pre, last, rfl⟩
  · rfl
  · have hpre : ∀ f ∈ pre, f.isPadding = false := fun f hf =>
      (List.pairwise_append.mp hpairwise).2.2 f hf last (List.mem_singleton_self _)
    have hreadable : Readable pre :=
      fun f hf => ⟨(hok f (List.mem_append_left _ hf)).1, hpre f hf⟩
    have hwpre : writeFields pre = some (writeAll pre) :=
      writeFields_eq_writeAll fun f hf => (hok f (List.mem_append_left _ hf)).2
    obtain ⟨hfits, hw⟩ := hok last (by simp)
    obtain ⟨b, hb⟩ := Option.isSome_iff_exists.mp hw
    have hall : writeAll (pre ++ [last]) = writeAll pre ++ b := by
      rw [writeAll_append, writeAll_cons, hb, writeAll_nil, List.append_nil]
      rfl
    rw [hall]
    cases hpad : last.isPadding
    · exact parseTxExtra_append_field hreadable hwpre hfits hpad hb
    · cases last with
      | padding size =>
        have hne := writeField_ne_nil hb
        rw [parseTxExtra, if_neg (by simp [hne]), parseFields_writeFields_append hreadable hwpre hne,
          parseFields_of_readField (readField_writeField_padding hfits hb), if_pos rfl]
        rfl
      | _ => simp [TxExtraField.isPadding] at hpad

theorem Parsed.filter {fields : List TxExtraField} (hp : Parsed fields) (p : TxExtraField → Bool) :
    Parsed (fields.filter p) :=
  ⟨fun f hf => hp.1 f (List.mem_of_mem_filter hf), hp.2.filter p⟩

/-! ## pick -/

theorem writeFieldBody_of_isSome {field : TxExtraField} (hw : (writeField field).isSome = true) :
    ∃ body, writeFieldBody field = some body ∧ writeField field = some (field.type.tag :: body) := by
  rw [writeField_eq_body] at hw ⊢
  rw [Option.isSome_map] at hw
  obtain ⟨body, hbody⟩ := Option.isSome_iff_exists.mp hw
  exact ⟨body, hbody, by rw [hbody]; rfl⟩

theorem pick_eq {type : TxExtraFieldType} {tag : UInt8} (htag : tag = type.tag)
    {fields : List TxExtraField} (hw : ∀ field ∈ fields, (writeField field).isSome = true) :
    pick type tag fields =
      some (writeAll (fields.filter (·.type == type)), fields.filter (·.type != type)) := by
  induction hn : fields.length using Nat.strong_induction_on generalizing fields with
  | _ n ih =>
    rw [pick]
    split
    · rename_i hnone
      have hnone' := List.find?_eq_none.mp hnone
      rw [List.filter_eq_nil_iff.mpr hnone', List.filter_eq_self.mpr fun f hf => by simpa using hnone' f hf]
      rfl
    · rename_i field hfind
      obtain ⟨htype, pre, post, rfl, hpre⟩ := List.find?_eq_some_iff_append.mp hfind
      obtain ⟨body, hbody, hwrite⟩ := writeFieldBody_of_isSome (hw field (by simp))
      have hfield : field.type = type := by simpa using htype
      have hpre_none : pre.filter (·.type == type) = [] :=
        List.filter_eq_nil_iff.mpr fun f hf => by simpa using hpre f hf
      have hpre_all : pre.filter (·.type != type) = pre :=
        List.filter_eq_self.mpr fun f hf => hpre f hf
      have hnotin : field ∉ pre := fun hmem => by
        have := hpre field hmem
        simp [hfield] at this
      have herase : (pre ++ field :: post).erase field = pre ++ post := by
        rw [List.erase_append_right _ hnotin, List.erase_cons_head]
      have hw' : ∀ f ∈ pre ++ post, (writeField f).isSome = true := fun f hf => hw f (by
        rcases List.mem_append.mp hf with h | h <;> simp [h])
      simp only [hbody]
      rw [herase, ih (pre ++ post).length (by simp [← hn]) hw' rfl]
      simp only [Option.map_some, List.filter_append, List.filter_cons, hfield, beq_self_eq_true,
        bne_self_eq_false, if_true, Bool.false_eq_true, if_false, hpre_none, hpre_all, List.nil_append,
        writeAll_cons, hwrite, Option.getD_some, htag, List.cons_append]

theorem pickAll_eq {order : List (TxExtraFieldType × UInt8)} (htags : ∀ p ∈ order, p.2 = p.1.tag)
    (hnodup : (order.map Prod.fst).Nodup) {fields : List TxExtraField}
    (hw : ∀ field ∈ fields, (writeField field).isSome = true) :
    pickAll order fields =
      some (writeAll (order.flatMap fun p => fields.filter (·.type == p.1)),
        fields.filter fun field => field.type ∉ order.map Prod.fst) := by
  induction order generalizing fields with
  | nil => simp [pickAll]
  | cons p order ih =>
    obtain ⟨type, tag⟩ := p
    rw [List.map_cons, List.nodup_cons] at hnodup
    rw [pickAll, pick_eq (htags _ List.mem_cons_self) hw]
    dsimp only
    rw [ih (fun q hq => htags q (List.mem_cons_of_mem _ hq)) hnodup.2
      (fun f hf => hw f (List.mem_of_mem_filter hf))]
    have hblocks : order.flatMap (fun q => (fields.filter (·.type != type)).filter (·.type == q.1)) =
        order.flatMap fun q => fields.filter (·.type == q.1) := by
      apply List.flatMap_congr
      intro q hq
      have hne : q.1 ≠ type := fun h => hnodup.1 (List.mem_map.mpr ⟨q, hq, h⟩)
      rw [List.filter_filter]
      apply List.filter_congr
      intro f _
      by_cases hf : f.type = q.1 <;> simp [hf, hne]
    have hleft : (fields.filter fun f => decide (f.type ∉ order.map Prod.fst) && f.type != type) =
        fields.filter fun f => decide (f.type ∉ ((type, tag) :: order).map Prod.fst) := by
      apply List.filter_congr
      intro f _
      by_cases hf : f.type = type <;> simp [hf]
    rw [hblocks, List.filter_filter, Option.map_some, List.flatMap_cons, writeAll_append, hleft]

theorem sortOrder_tags : ∀ p ∈ sortOrder, p.2 = p.1.tag := by decide

theorem sortOrder_nodup : (sortOrder.map Prod.fst).Nodup := by decide

theorem mem_sortOrder (type : TxExtraFieldType) : type ∈ sortOrder.map Prod.fst := by
  cases type <;> decide

theorem pickAll_sortOrder {fields : List TxExtraField}
    (hw : ∀ field ∈ fields, (writeField field).isSome = true) :
    pickAll sortOrder fields = some (writeAll (sortByTag fields), []) := by
  rw [pickAll_eq sortOrder_tags sortOrder_nodup hw, sortByTag,
    List.filter_eq_nil_iff.mpr fun f _ => by simp [mem_sortOrder f.type]]

/-! ## sortByTag -/

theorem mem_sortByTag {field : TxExtraField} {fields : List TxExtraField}
    (h : field ∈ sortByTag fields) : field ∈ fields := by
  obtain ⟨p, -, hf⟩ := List.mem_flatMap.mp h
  exact List.mem_of_mem_filter hf

theorem filter_filter_type (fields : List TxExtraField) (type type' : TxExtraFieldType) :
    (fields.filter (·.type == type')).filter (·.type == type) =
      if type' = type then fields.filter (·.type == type) else [] := by
  rw [List.filter_filter]
  split
  · rename_i heq
    subst heq
    simp
  · rename_i hne
    apply List.filter_eq_nil_iff.mpr
    intro f _
    by_cases hf : f.type = type <;> simp [hf, Ne.symm hne]

theorem filter_sortByTag (fields : List TxExtraField) (type : TxExtraFieldType) :
    (sortByTag fields).filter (·.type == type) = fields.filter (·.type == type) := by
  rw [sortByTag, List.filter_flatMap]
  simp only [filter_filter_type]
  cases type <;> simp [sortOrder]

theorem sortByTag_sortByTag (fields : List TxExtraField) :
    sortByTag (sortByTag fields) = sortByTag fields := by
  conv_lhs => rw [sortByTag]
  simp only [filter_sortByTag]
  rfl

theorem count_filter_type (fields : List TxExtraField) (field : TxExtraField)
    (type : TxExtraFieldType) :
    (fields.filter (·.type == type)).count field = if field.type = type then fields.count field else 0 := by
  split
  · rename_i htype
    exact List.count_filter (by simpa using htype)
  · rename_i htype
    exact List.count_eq_zero.mpr fun hmem => htype (by simpa using (List.mem_filter.mp hmem).2)

theorem sortByTag_perm (fields : List TxExtraField) : (sortByTag fields).Perm fields := by
  rw [List.perm_iff_count]
  intro field
  rw [sortByTag, List.count_flatMap]
  simp only [Function.comp_def, count_filter_type]
  cases h : field.type <;> simp [sortOrder]

theorem parsed_sortByTag {fields : List TxExtraField} (hp : Parsed fields) :
    Parsed (sortByTag fields) := by
  refine ⟨fun f hf => hp.1 f (mem_sortByTag hf), ?_⟩
  rw [sortByTag, List.pairwise_flatMap]
  refine ⟨fun p _ => hp.2.filter _, ?_⟩
  have horder : sortOrder.Pairwise fun p _ => p.1 ≠ .padding := by decide
  refine horder.imp ?_
  intro p q hpad x hx y _
  have htype : x.type = p.1 := by simpa using (List.mem_filter.mp hx).2
  rw [isPadding_eq_type, htype]
  simpa using hpad

/-! ## sort_tx_extra and remove_field_from_tx_extra on what parse_tx_extra reads -/

theorem readFieldsPartial_of_readField {input rest : List UInt8} {field : TxExtraField}
    (h : readField input = some (field, rest)) :
    readFieldsPartial input = if rest = [] then ([field], none)
      else (field :: (readFieldsPartial rest).1, (readFieldsPartial rest).2) := by
  rw [readFieldsPartial]
  split
  · rename_i hnone
    rw [h] at hnone
    cases hnone
  · rename_i field' rest' hsome
    rw [h] at hsome
    cases hsome
    rfl

theorem readFieldsPartial_of_parseFields {input : List UInt8} {fields : List TxExtraField}
    (h : parseFields input = some fields) : readFieldsPartial input = (fields, none) := by
  induction hn : input.length using Nat.strong_induction_on generalizing input fields with
  | _ n ih =>
    rw [parseFields] at h
    split at h
    · cases h
    · rename_i field rest hread
      rw [readFieldsPartial_of_readField hread]
      split_ifs at h ⊢ with hrest
      · cases h
        rfl
      · obtain ⟨fields', hfields', rfl⟩ := Option.map_eq_some_iff.mp h
        rw [ih rest.length (hn ▸ readField_rest_lt hread) hfields' rfl]

theorem parseTxExtra_parsed {txExtra : List UInt8} {fields : List TxExtraField}
    (h : parseTxExtra txExtra = some fields) : Parsed fields := by
  rw [parseTxExtra] at h
  split_ifs at h
  · cases h
    exact ⟨fun _ hf => (List.not_mem_nil hf).elim, List.Pairwise.nil⟩
  · exact parseFields_parsed h

theorem sortTxExtra_of_parseTxExtra {txExtra : List UInt8} {fields : List TxExtraField}
    (h : parseTxExtra txExtra = some fields) :
    sortTxExtra txExtra false = some (writeAll (sortByTag fields)) := by
  have hp := parseTxExtra_parsed h
  rw [parseTxExtra] at h
  split_ifs at h with hempty
  · cases h
    subst hempty
    rfl
  · rw [sortTxExtra, if_neg hempty]
    dsimp only
    rw [readFieldsPartial_of_parseFields h]
    simp only [Option.isSome_none, Bool.false_and, Bool.false_eq_true, if_false,
      pickAll_sortOrder fun f hf => (hp.1 f hf).2]
    rw [if_neg (not_not.mpr rfl), List.append_nil]

theorem removeFieldFromTxExtra_of_parseTxExtra {txExtra : List UInt8}
    {fields : List TxExtraField} (h : parseTxExtra txExtra = some fields) (type : TxExtraFieldType) :
    removeFieldFromTxExtra txExtra type = some (writeAll (fields.filter (·.type != type))) := by
  rw [parseTxExtra] at h
  rw [removeFieldFromTxExtra]
  split_ifs at h ⊢
  · cases h
    rfl
  · rw [h]
    rfl

theorem sortTxExtra_removeFieldFromTxExtra_parse {txExtra : List UInt8}
    {fields : List TxExtraField} (h : parseTxExtra txExtra = some fields) :
    (∃ sorted, sortTxExtra txExtra false = some sorted ∧
      parseTxExtra sorted = some (sortByTag fields) ∧ sortTxExtra sorted false = some sorted) ∧
    ∀ type, ∃ removed, removeFieldFromTxExtra txExtra type = some removed ∧
      parseTxExtra removed = some (fields.filter (·.type != type)) := by
  have hp := parseTxExtra_parsed h
  have hsorted := parseTxExtra_writeAll (parsed_sortByTag hp)
  refine ⟨⟨_, sortTxExtra_of_parseTxExtra h, hsorted, ?_⟩, fun type =>
    ⟨_, removeFieldFromTxExtra_of_parseTxExtra h type, parseTxExtra_writeAll (hp.filter _)⟩⟩
  rw [sortTxExtra_of_parseTxExtra hsorted, sortByTag_sortByTag]

theorem parseTxExtra_nonce_padding :
    parseTxExtra [0x02, 0x01, 0xAA, 0x00, 0x00] = some [.nonce [0xAA], .padding 2] := by
  have hnonce : readField [0x02, 0x01, 0xAA, 0x00, 0x00] = some (.nonce [0xAA], [0x00, 0x00]) := by
    decide
  have hpadding : readField [0x00, 0x00] = some (.padding 2, []) := by decide
  rw [parseTxExtra, if_neg (by simp), parseFields_of_readField hnonce, if_neg (by simp),
    parseFields_of_readField hpadding, if_pos rfl]
  rfl

theorem sortTxExtra_removeFieldFromTxExtra_nonce_padding :
    parseTxExtra [0x02, 0x01, 0xAA, 0x00, 0x00] = some [.nonce [0xAA], .padding 2] ∧
      ((∃ sorted, sortTxExtra [0x02, 0x01, 0xAA, 0x00, 0x00] false = some sorted ∧
          parseTxExtra sorted = some (sortByTag [.nonce [0xAA], .padding 2]) ∧
          sortTxExtra sorted false = some sorted) ∧
        ∀ type, ∃ removed, removeFieldFromTxExtra [0x02, 0x01, 0xAA, 0x00, 0x00] type = some removed ∧
          parseTxExtra removed = some ([.nonce [0xAA], .padding 2].filter (·.type != type))) :=
  ⟨parseTxExtra_nonce_padding, sortTxExtra_removeFieldFromTxExtra_parse parseTxExtra_nonce_padding⟩

/-- sort_tx_extra loses and adds no field: what parse_tx_extra reads from the sorted extra is a
reordering of what it reads from the original. -/
theorem sortTxExtra_perm {txExtra : List UInt8} {fields : List TxExtraField}
    (h : parseTxExtra txExtra = some fields) :
    ∃ sorted sortedFields, sortTxExtra txExtra false = some sorted ∧
      parseTxExtra sorted = some sortedFields ∧ sortedFields.Perm fields :=
  ⟨_, sortByTag fields, sortTxExtra_of_parseTxExtra h,
    parseTxExtra_writeAll (parsed_sortByTag (parseTxExtra_parsed h)), sortByTag_perm fields⟩

theorem sortTxExtra_perm_nonce_padding :
    parseTxExtra [0x02, 0x01, 0xAA, 0x00, 0x00] = some [.nonce [0xAA], .padding 2] ∧
      ∃ sorted sortedFields, sortTxExtra [0x02, 0x01, 0xAA, 0x00, 0x00] false = some sorted ∧
        parseTxExtra sorted = some sortedFields ∧
        sortedFields.Perm [.nonce [0xAA], .padding 2] :=
  ⟨parseTxExtra_nonce_padding, sortTxExtra_perm parseTxExtra_nonce_padding⟩

end PepePrivate.Serialization
