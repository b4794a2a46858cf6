import Stim.Cli.BuildKey.Canonical

/-!
# A key is explained by its inputs

The merge of the inputs throws exactly where two inputs of one name disagree, and otherwise holds
the rows of all inputs in the order of their names.  So the key depends on the set of the rows
only, and two keys differ exactly where the report of what changed has something to say.

What a row's version, mode and label say is in no key.
-/

namespace Stim.BuildKey

variable {known merged : OrderedMap JsString Input} {inputs : List Input}

/-! ## The merge -/

/-- Each input is filed under its own name. -/
def Filed (known : OrderedMap JsString Input) : Prop :=
  ∀ name input, known.get name = some input → input.name = name

theorem filed_set (hfiled : Filed known) (input : Input) : Filed (known.set input.name input) := by
  intro name other hother
  rw [OrderedMap.get_set] at hother
  split at hother
  · next hname =>
      cases hother
      exact hname.symm
  · exact hfiled name other hother

/-- The inputs filed or met agree with the one that is filed under their name. -/
theorem byName_ok (hfiled : Filed known) (h : byName known inputs = .ok merged) :
    Filed merged ∧
      (∀ name first, known.get name = some first → merged.get name = some first) ∧
      (∀ input ∈ inputs, ∃ first, merged.get input.name = some first ∧ ¬ disagree first input) ∧
      (∀ name first, merged.get name = some first →
        known.get name = some first ∨ first ∈ inputs) := by
  induction inputs generalizing known with
  | nil =>
      cases h
      exact ⟨hfiled, fun _ _ h => h, fun _ h => absurd h List.not_mem_nil, fun _ _ h => .inl h⟩
  | cons input inputs ih =>
      rw [byName] at h
      cases hget : known.get input.name with
      | none =>
          rw [hget] at h
          obtain ⟨hmerged, hkept, hmet, hfrom⟩ := ih (filed_set hfiled input) h
          refine ⟨hmerged, fun name first hfirst => hkept name first ?_, ?_, ?_⟩
          · rw [OrderedMap.get_set, if_neg, hfirst]
            rintro rfl
            rw [hget] at hfirst
            cases hfirst
          · intro other hother
            rcases List.mem_cons.mp hother with rfl | hother
            · refine ⟨other, hkept _ _ (OrderedMap.get_set_self), ?_⟩
              rintro (hne | hne) <;> exact hne rfl
            · exact hmet other hother
          · intro name first hfirst
            rcases hfrom name first hfirst with hknown | hmem
            · rw [OrderedMap.get_set] at hknown
              split at hknown
              · cases hknown
                exact .inr List.mem_cons_self
              · exact .inl hknown
            · exact .inr (List.mem_cons_of_mem _ hmem)
      | some first =>
          rw [hget] at h
          by_cases hdisagree : disagree first input
          · simp only [if_pos hdisagree] at h
            cases h
          · simp only [if_neg hdisagree] at h
            obtain ⟨hmerged, hkept, hmet, hfrom⟩ := ih hfiled h
            refine ⟨hmerged, hkept, ?_, fun name other hother =>
              (hfrom name other hother).imp_right (List.mem_cons_of_mem _)⟩
            intro other hother
            rcases List.mem_cons.mp hother with rfl | hother
            · exact ⟨first, hkept _ _ hget, hdisagree⟩
            · exact hmet other hother

theorem byName_error {message : JsString} (hfiled : Filed known)
    (h : byName known inputs = .error message) :
    ∃ a b, (known.get a.name = some a ∨ a ∈ inputs) ∧ b ∈ inputs ∧ a.name = b.name ∧
      disagree a b := by
  induction inputs generalizing known with
  | nil => cases h
  | cons input inputs ih =>
      rw [byName] at h
      cases hget : known.get input.name with
      | none =>
          rw [hget] at h
          obtain ⟨a, b, ha, hb, hname, hdisagree⟩ := ih (filed_set hfiled input) h
          refine ⟨a, b, ?_, List.mem_cons_of_mem _ hb, hname, hdisagree⟩
          rcases ha with ha | ha
          · rw [OrderedMap.get_set] at ha
            split at ha
            · cases ha
              exact .inr List.mem_cons_self
            · exact .inl ha
          · exact .inr (List.mem_cons_of_mem _ ha)
      | some first =>
          rw [hget] at h
          by_cases hdisagree : disagree first input
          · have hname := hfiled _ _ hget
            exact ⟨first, input, .inl (hname ▸ hget), List.mem_cons_self, hname, hdisagree⟩
          · simp only [if_neg hdisagree] at h
            obtain ⟨a, b, ha, hb, hrest⟩ := ih hfiled h
            exact ⟨a, b, ha.imp_right (List.mem_cons_of_mem _), List.mem_cons_of_mem _ hb, hrest⟩

theorem filed_empty : Filed OrderedMap.empty := fun _ _ h => by cases h

/-- The rows of two inputs of one name that do not disagree are the same. -/
theorem row_eq {a b : Input} (hname : a.name = b.name) (h : ¬ disagree a b) : row a = row b := by
  unfold disagree at h
  push Not at h
  rw [row, row, hname, h.1, h.2]

theorem disagree_of_row_ne {a b : Input} (hname : a.name = b.name) (h : row a ≠ row b) :
    disagree a b := by
  by_contra hagree
  exact h (row_eq hname hagree)

/-- What `mergeInputs` returns: the rows of the inputs, in strict order of their names. -/
theorem mergeInputs_ok {list : List Input} (h : mergeInputs inputs = .ok list) :
    (list.Pairwise fun a b => a.name.units < b.name.units) ∧
      (∀ r, r ∈ list.map row ↔ r ∈ inputs.map row) ∧
      ∀ a ∈ inputs, ∀ b ∈ inputs, a.name = b.name → ¬ disagree a b := by
  obtain ⟨known, hknown, rfl⟩ : ∃ known, byName OrderedMap.empty inputs = .ok known ∧
      sortByName known.values = list := by
    unfold mergeInputs at h
    cases hknown : byName OrderedMap.empty inputs with
    | error message => rw [hknown] at h; cases h
    | ok known => rw [hknown] at h; cases h; exact ⟨known, rfl, rfl⟩
  obtain ⟨hfiled, -, hmet, hfrom⟩ := byName_ok filed_empty hknown
  have hnames : known.values.map Input.name = known.keys := by
    unfold OrderedMap.values OrderedMap.keys
    rw [List.map_map]
    refine List.map_congr_left fun entry hentry => ?_
    exact hfiled _ _ (OrderedMap.get_eq_some_iff.mpr hentry)
  have hmem : ∀ first, first ∈ known.values ↔ known.get first.name = some first := by
    intro first
    unfold OrderedMap.values
    rw [List.mem_map]
    constructor
    · rintro ⟨⟨name, found⟩, hentry, rfl⟩
      have hget := OrderedMap.get_eq_some_iff.mpr hentry
      rwa [← hfiled _ _ hget] at hget
    · exact fun hget => ⟨_, OrderedMap.get_eq_some_iff.mp hget, rfl⟩
  refine ⟨strict_sorted (by rw [hnames]; exact known.nodup), fun r => ?_, ?_⟩
  · simp only [List.mem_map, sortByName, List.mem_insertionSort, hmem]
    constructor
    · rintro ⟨first, hfirst, rfl⟩
      have hinput := (hfrom _ _ hfirst).resolve_left (by rintro ⟨⟩)
      exact ⟨first, hinput, rfl⟩
    · rintro ⟨input, hinput, rfl⟩
      obtain ⟨first, hfirst, hagree⟩ := hmet input hinput
      have hname := hfiled _ _ hfirst
      exact ⟨first, by rw [hname, hfirst], row_eq hname hagree⟩
  · intro a ha b hb hname
    obtain ⟨first, hfirst, hagree⟩ := hmet a ha
    obtain ⟨first', hfirst', hagree'⟩ := hmet b hb
    rw [hname, hfirst'] at hfirst
    cases hfirst
    unfold disagree at hagree hagree' ⊢
    push Not at hagree hagree' ⊢
    exact ⟨hagree.1.symm.trans hagree'.1, hagree.2.symm.trans hagree'.2⟩

/-- `mergeInputs` throws exactly when two inputs of one name disagree. -/
theorem mergeInputs_error_iff :
    (∃ message, mergeInputs inputs = .error message) ↔
      ∃ a ∈ inputs, ∃ b ∈ inputs, a.name = b.name ∧ disagree a b := by
  constructor
  · rintro ⟨message, h⟩
    unfold mergeInputs at h
    cases hknown : byName OrderedMap.empty inputs with
    | ok known => rw [hknown] at h; cases h
    | error message =>
        obtain ⟨a, b, ha, hb, hrest⟩ := byName_error filed_empty hknown
        exact ⟨a, ha.resolve_left (by rintro ⟨⟩), b, hb, hrest⟩
  · rintro ⟨a, ha, b, hb, hname, hdisagree⟩
    cases h : mergeInputs inputs with
    | error message => exact ⟨message, rfl⟩
    | ok list => exact absurd hdisagree ((mergeInputs_ok h).2.2 a ha b hb hname)

/-- Lists in strict order of the names with the same rows have the same row list. -/
theorem rows_eq {xs ys : List Input} (hxs : xs.Pairwise fun a b => a.name.units < b.name.units)
    (hys : ys.Pairwise fun a b => a.name.units < b.name.units)
    (h : ∀ r, r ∈ xs.map row ↔ r ∈ ys.map row) : xs.map row = ys.map row := by
  let before := fun a b : JsString × InputKind × JsString => a.1.units < b.1.units
  have hirrefl : Std.Irrefl before := ⟨fun _ => lt_irrefl _⟩
  have hantisymm : Std.Antisymm before := ⟨fun _ _ hab hba => absurd hab hba.asymm⟩
  have hrows : (xs.map row).Pairwise before := List.pairwise_map.mpr hxs
  have hrows' : (ys.map row).Pairwise before := List.pairwise_map.mpr hys
  exact hrows.eq_of_mem_iff hrows' h

/-! ## The report -/

theorem disagree_iff_row {a b : Input} (hname : a.name = b.name) :
    disagree a b ↔ row a ≠ row b := by
  refine ⟨fun h heq => ?_, disagree_of_row_ne hname⟩
  obtain ⟨-, hkind, hhash⟩ : a.name = b.name ∧ a.kind = b.kind ∧ a.hash = b.hash := by
    simpa [row] using heq
  exact h.elim (· hkind) (· hhash)

/-- Nothing changed exactly between lists with the same rows. -/
theorem diffSorted_eq_nil_iff (a b : List Input) : diffSorted a b = [] ↔ a.map row = b.map row := by
  fun_induction diffSorted a b with
  | case1 => simp
  | case2 => simp
  | case3 => simp
  | case4 left a right b hlt ih =>
      have hne : row left ≠ row right := fun h => by
        have hname : left.name = right.name := congrArg Prod.fst h
        rw [hname] at hlt
        exact lt_irrefl _ hlt
      simp [hne]
  | case5 left a right b hle hlt ih =>
      have hne : row left ≠ row right := fun h => by
        have hname : left.name = right.name := congrArg Prod.fst h
        rw [hname] at hlt
        exact lt_irrefl _ hlt
      simp [hne]
  | case6 left a right b hle hge hdisagree ih =>
      have hname := JsString.units_injective (le_antisymm (not_lt.mp hge) (not_lt.mp hle))
      simp [(disagree_iff_row hname).mp hdisagree]
  | case7 left a right b hle hge hagree ih =>
      have hname := JsString.units_injective (le_antisymm (not_lt.mp hge) (not_lt.mp hle))
      rw [ih, List.map_cons, List.map_cons, row_eq hname hagree]
      simp

theorem sortByName_eq {list : List Input}
    (h : list.Pairwise fun a b => a.name.units < b.name.units) : sortByName list = list := by
  have hsorted : list.Pairwise fun a b => byCodeUnit a.name b.name := h.imp le_of_lt
  exact hsorted.insertionSort_eq

/-! ## The key -/

section

variable {ν : Type} {numerals : Numerals ν} {platform : Platform} {native : NativeMode}
  {layout : Layout}

theorem isJson_textValue (text : String) : IsJson numerals (textValue text) := .string _

theorem isJson_orNull (s : Option JsString) : IsJson numerals (orNull s) := by
  cases s with
  | none => exact .null
  | some s => exact .string s

theorem isJson_rowValue (r : JsString × InputKind × JsString) : IsJson numerals (rowValue r) := by
  refine .array _ fun item hitem => ?_
  simp only [List.mem_cons, List.not_mem_nil, or_false] at hitem
  obtain rfl | rfl | rfl := hitem
  · exact .string _
  · exact isJson_textValue _
  · exact .string _

theorem isJson_layout (layout : Layout) : IsJson numerals (.object [
    (JsString.ofString "projectPath", orNull layout.projectPath),
    (JsString.ofString "gradleRoot", orNull layout.gradleRoot),
    (JsString.ofString "module", orNull layout.module)]) := by
  refine .object _ (by simp only [List.map_cons, List.map_nil]; decide) fun member hmember _ => ?_
  simp only [List.mem_cons, List.not_mem_nil, or_false] at hmember
  obtain rfl | rfl | rfl := hmember <;> exact isJson_orNull _

theorem isJson_preimage (p : Preimage) : IsJson numerals (p.value numerals) := by
  refine .object _ (by simp only [List.map_cons, List.map_nil]; decide) fun member hmember _ => ?_
  simp only [List.mem_cons, List.not_mem_nil, or_false] at hmember
  obtain rfl | rfl | rfl | rfl | rfl := hmember
  · exact .number _ (numerals.ofNat_finite _)
  · exact isJson_textValue _
  · exact isJson_textValue _
  · exact isJson_layout _
  · refine .array _ fun item hitem => ?_
    obtain ⟨r, -, rfl⟩ := List.mem_map.mp hitem
    exact isJson_rowValue r

theorem ofString_kind_injective {a b : InputKind}
    (h : JsString.ofString a.text = JsString.ofString b.text) : a = b := by
  cases a <;> cases b <;> first | rfl | exact absurd h (by decide)

theorem meaning_rowValue_injective {r s : JsString × InputKind × JsString}
    (h : meaning numerals (rowValue r) = meaning numerals (rowValue s)) : r = s := by
  simp only [rowValue, textValue, meaning, itemMeanings, Meaning.array.injEq, List.cons.injEq,
    Meaning.string.injEq, and_true] at h
  exact Prod.ext h.1 (Prod.ext (ofString_kind_injective h.2.1) h.2.2)

theorem memberMeaning_inputs (p : Preimage) :
    memberMeaning numerals [
      (JsString.ofString "schema", .number (numerals.ofNat p.schema)),
      (JsString.ofString "platform", textValue p.platform.text),
      (JsString.ofString "native", textValue p.native.text),
      (JsString.ofString "layout", .object [
        (JsString.ofString "projectPath", orNull p.layout.projectPath),
        (JsString.ofString "gradleRoot", orNull p.layout.gradleRoot),
        (JsString.ofString "module", orNull p.layout.module)]),
      (JsString.ofString "inputs", .array (p.inputs.map rowValue))] (JsString.ofString "inputs") =
      some (meaning numerals (.array (p.inputs.map rowValue))) := by
  have hne : ∀ name : String, name ∈ ["schema", "platform", "native", "layout"] →
      JsString.ofString "inputs" ≠ JsString.ofString name := by decide
  rw [memberMeaning_cons (by rintro ⟨⟩), if_neg (hne _ (by decide)),
    memberMeaning_cons (by rintro ⟨⟩), if_neg (hne _ (by decide)),
    memberMeaning_cons (by rintro ⟨⟩), if_neg (hne _ (by decide)),
    memberMeaning_cons (by rintro ⟨⟩), if_neg (hne _ (by decide)),
    memberMeaning_cons (by rintro ⟨⟩), if_pos rfl]

/-- Preimages that mean the same have the same rows. -/
theorem inputs_eq_of_meaning {p q : Preimage}
    (h : meaning numerals (p.value numerals) = meaning numerals (q.value numerals)) :
    p.inputs = q.inputs := by
  rw [Preimage.value, Preimage.value, meaning, meaning, Meaning.object.injEq] at h
  have hinputs := congrFun h (JsString.ofString "inputs")
  rw [memberMeaning_inputs, memberMeaning_inputs, Option.some_inj, meaning, meaning,
    Meaning.array.injEq, itemMeanings_eq, itemMeanings_eq, List.map_map, List.map_map] at hinputs
  exact eq_of_map_eq (fun _ _ _ _ => meaning_rowValue_injective) hinputs

/-- The preimage that a merged list of inputs gives. -/
def preimageOf (platform : Platform) (native : NativeMode) (layout : Layout)
    (merged : List Input) : Preimage :=
  { schema := FINGERPRINT_SCHEMA, platform, native, layout, inputs := merged.map row }

theorem preimage_eq {inputs merged : List Input} (h : mergeInputs inputs = .ok merged) :
    preimage platform native layout inputs = .ok (preimageOf platform native layout merged) := by
  rw [preimage, h]
  rfl

theorem preimageHash_eq (sha256 : List Char → String) (p : Preimage) :
    preimageHash numerals sha256 p = .ok (sha256 (tree numerals (p.value numerals)).print) := by
  rw [preimageHash, canonicalJson_eq (isJson_preimage p)]
  rfl

/-- The hashes of two preimages of one setting are equal exactly if their rows are. -/
theorem hash_eq_iff {sha256 : List Char → String} (hsha : Function.Injective sha256)
    (a b : List Input) :
    sha256 (tree numerals ((preimageOf platform native layout a).value numerals)).print =
        sha256 (tree numerals ((preimageOf platform native layout b).value numerals)).print ↔
      a.map row = b.map row := by
  constructor
  · intro h
    have htree := print_inj (legal_tree (isJson_preimage _)) (legal_tree (isJson_preimage _))
      (hsha h)
    have hmeaning := congrArg Tree.meaning htree
    rw [← meaning_tree (isJson_preimage _), ← meaning_tree (isJson_preimage _)] at hmeaning
    exact inputs_eq_of_meaning hmeaning
  · intro h
    rw [preimageOf, preimageOf, h]

/-- The rows of the merge depend on which inputs there are only. -/
theorem rows_eq_of_mem_iff {xs ys a b : List Input} (hxs : mergeInputs xs = .ok a)
    (hys : mergeInputs ys = .ok b) (h : ∀ input, input ∈ xs ↔ input ∈ ys) :
    a.map row = b.map row := by
  obtain ⟨hsorted, hrows, -⟩ := mergeInputs_ok hxs
  obtain ⟨hsorted', hrows', -⟩ := mergeInputs_ok hys
  refine rows_eq hsorted hsorted' fun r => ?_
  rw [hrows, hrows', List.mem_map, List.mem_map]
  exact exists_congr fun input => and_congr_left fun _ => h input

theorem diffInputs_eq_nil_iff {xs ys a b : List Input} (hxs : mergeInputs xs = .ok a)
    (hys : mergeInputs ys = .ok b) : diffInputs a b = [] ↔ a.map row = b.map row := by
  rw [diffInputs, sortByName_eq (mergeInputs_ok hxs).1, sortByName_eq (mergeInputs_ok hys).1,
    diffSorted_eq_nil_iff]

/-- Equal texts are equal values, a merge throws exactly over a disagreement, and keys of one
setting depend on the set of the inputs, and are equal exactly if the report is empty. -/
theorem keys_explained (numerals : Numerals ν) :
    (∀ a b : JsValue ν, IsJson numerals a → IsJson numerals b →
      ∃ s t, canonicalJson numerals a = .ok s ∧ canonicalJson numerals b = .ok t ∧
        (s = t ↔ meaning numerals a = meaning numerals b)) ∧
    (∀ inputs : List Input, (∃ message, mergeInputs inputs = .error message) ↔
      ∃ a ∈ inputs, ∃ b ∈ inputs, a.name = b.name ∧ (a.kind ≠ b.kind ∨ a.hash ≠ b.hash)) ∧
    ∀ sha256 : List Char → String, Function.Injective sha256 →
      ∀ (platform : Platform) (native : NativeMode) (layout : Layout) (xs ys a b : List Input),
        mergeInputs xs = .ok a → mergeInputs ys = .ok b →
        ∃ p q s t, preimage platform native layout xs = .ok p ∧
          preimage platform native layout ys = .ok q ∧
          preimageHash numerals sha256 p = .ok s ∧ preimageHash numerals sha256 q = .ok t ∧
          ((∀ input, input ∈ xs ↔ input ∈ ys) → s = t) ∧ (s = t ↔ diffInputs a b = []) := by
  refine ⟨fun a b ha hb => canonicalJson_eq_iff ha hb, fun inputs => mergeInputs_error_iff, ?_⟩
  intro sha256 hsha platform native layout xs ys a b hxs hys
  refine ⟨_, _, _, _, preimage_eq hxs, preimage_eq hys, preimageHash_eq sha256 _,
    preimageHash_eq sha256 _, fun h => ?_, ?_⟩
  · exact (hash_eq_iff hsha a b).mpr (rows_eq_of_mem_iff hxs hys h)
  · exact (hash_eq_iff hsha a b).trans (diffInputs_eq_nil_iff hxs hys).symm

/-- Numbers of one digit. -/
def digits : Numerals (Fin 10) where
  isFinite _ := true
  text n := [Char.ofNat (48 + n.val)]
  ofNat n := Fin.ofNat 10 n
  ofNat_finite _ := rfl
  nonempty _ _ := List.cons_ne_nil _ _
  legal n _ c hc := by
    have hDigit : ∀ n : Fin 10, (Char.ofNat (48 + n.val)).isDigit = true := by decide
    rw [List.mem_singleton.mp hc]
    exact .inl (hDigit n)

/-- Two inputs in either order, one of them twice. -/
theorem keys_explained_twice :
    (∃ s t, canonicalJson digits (.object [([98], .number 1), ([97], .undefined)]) = .ok s ∧
      canonicalJson digits (.object [([98], .number 1)]) = .ok t ∧
      (s = t ↔ meaning digits (.object [([98], .number 1), ([97], .undefined)]) =
        meaning digits (.object [([98], .number 1)]))) ∧
    ∃ p q s t,
      preimage .ios .tracked ⟨none, none, none⟩ [⟨[97], .env, [49], none, none, none⟩,
        ⟨[98], .env, [50], none, none, none⟩, ⟨[97], .env, [49], none, none, none⟩] = .ok p ∧
      preimage .ios .tracked ⟨none, none, none⟩ [⟨[98], .env, [50], none, none, none⟩,
        ⟨[97], .env, [49], none, none, none⟩] = .ok q ∧
      preimageHash digits String.ofList p = .ok s ∧ preimageHash digits String.ofList q = .ok t ∧
      s = t := by
  obtain ⟨hjson, -, hkeys⟩ := keys_explained digits
  refine ⟨hjson _ _ ?_ ?_, ?_⟩
  · refine .object _ (by decide) fun member hmember hdefined => ?_
    simp only [List.mem_cons, List.not_mem_nil, or_false] at hmember
    obtain rfl | rfl := hmember
    · exact .number _ rfl
    · exact absurd rfl hdefined
  · refine .object _ (by decide) fun member hmember _ => ?_
    obtain rfl := List.mem_singleton.mp hmember
    exact .number _ rfl
  · obtain ⟨p, q, s, t, hp, hq, hs, ht, hsame, -⟩ := hkeys String.ofList
      (fun _ _ h => String.ofList_injective h) .ios .tracked ⟨none, none, none⟩
      [⟨[97], .env, [49], none, none, none⟩, ⟨[98], .env, [50], none, none, none⟩,
        ⟨[97], .env, [49], none, none, none⟩]
      [⟨[98], .env, [50], none, none, none⟩, ⟨[97], .env, [49], none, none, none⟩]
      [⟨[97], .env, [49], none, none, none⟩, ⟨[98], .env, [50], none, none, none⟩]
      [⟨[97], .env, [49], none, none, none⟩, ⟨[98], .env, [50], none, none, none⟩]
      (by decide) (by decide)
    refine ⟨p, q, s, t, hp, hq, hs, ht, hsame fun input => ?_⟩
    simp only [List.mem_cons, List.not_mem_nil, or_false]
    tauto

end

end Stim.BuildKey
