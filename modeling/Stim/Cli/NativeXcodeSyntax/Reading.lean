import Stim.Cli.NativeXcodeSyntax.Grammar

/-!
# The reader reads its grammar

The texts that a tree can be written as, and the proof that the reader returns a tree just for
these, for every source and to its end.
-/

namespace Stim.NativeXcodeSyntax

/-- The dictionary that members make one after another: the last of equal keys wins. -/
def assigned (members : List (JsString × Tree)) : List (JsString × Tree) :=
  members.foldl (fun result member => assign result member.1 member.2) []

/-- What a text is a rendering of: a value, or what stands between the brackets of a list or of a
dictionary, the closing bracket included. -/
inductive Part where
  | value (tree : Tree)
  | items (items : List Tree)
  | members (members : List (JsString × Tree))

/-- Behind a string without quotes a comment stands apart. -/
def Apart (written gap : JsString) : Prop :=
  Bare written → ∀ c, gap.head? = some c → Whitespace.isSpaceUnit c = true

inductive Renders : Part → JsString → Prop
  | quoted {written : JsString} : Quoted written → Renders (.value (.text written)) written
  | bare {written : JsString} : Bare written → Renders (.value (.text written)) written
  | list {items : List Tree} {body : JsString} : Renders (.items items) body →
      Renders (.value (.list items)) (openParen :: body)
  | dictionary {members : List (JsString × Tree)} {body : JsString} :
      Renders (.members members) body →
      Renders (.value (.dictionary (assigned members))) (openBrace :: body)
  | noItems {gap : JsString} : Gap gap → Renders (.items []) (gap ++ [closeParen])
  | lastItem {item : Tree} {gap written behind : JsString} : Gap gap →
      Renders (.value item) written → Gap behind → Apart written behind →
      Renders (.items [item]) (gap ++ written ++ behind ++ [closeParen])
  | item {item : Tree} {items : List Tree} {gap written behind rest : JsString} : Gap gap →
      Renders (.value item) written → Gap behind → Apart written behind →
      Renders (.items items) rest →
      Renders (.items (item :: items)) (gap ++ written ++ behind ++ comma :: rest)
  | noMembers {gap : JsString} : Gap gap → Renders (.members []) (gap ++ [closeBrace])
  | member {key : JsString} {tree : Tree} {members : List (JsString × Tree)}
      {gap behindKey front written behind rest : JsString} : Gap gap →
      Quoted key ∨ Bare key → Gap behindKey → Apart key behindKey → Gap front →
      Renders (.value tree) written → Gap behind → Apart written behind →
      Renders (.members members) rest →
      Renders (.members ((key, tree) :: members))
        (gap ++ key ++ behindKey ++ equals :: (front ++ written ++ behind ++ semicolon :: rest))

/-- A source that renders a tree; a string whose last group is left open runs to its end. -/
inductive Document : Tree → JsString → Prop
  | closed {tree : Tree} {gap written behind : JsString} : Gap gap →
      Renders (.value tree) written → EndGap behind → Apart written behind →
      Document tree (gap ++ written ++ behind)
  | unclosed {gap written : JsString} : Gap gap → OpenBare written →
      Document (.text written) (gap ++ written)

/-! ## Keys -/

theorem assign_new {members : List (JsString × Tree)} {key : JsString}
    (h : key ∉ members.map Prod.fst) (value : Tree) :
    assign members key value = members ++ [(key, value)] := by
  induction members with
  | nil => rfl
  | cons member members ih =>
      rw [List.map_cons, List.mem_cons, not_or] at h
      rw [assign, if_neg (Ne.symm h.1), ih h.2, List.cons_append]

/-- Members with distinct keys are the dictionary that they make. -/
theorem assigned_of_nodup {members : List (JsString × Tree)}
    (h : (members.map Prod.fst).Nodup) : assigned members = members := by
  induction members using List.reverseRecOn with
  | nil => rfl
  | append_singleton members member ih =>
      rw [List.map_append, List.nodup_append] at h
      have hnew : member.1 ∉ members.map Prod.fst :=
        fun hmem => h.2.2 _ hmem _ List.mem_cons_self rfl
      rw [assigned, List.foldl_append, ← assigned, ih h.1]
      exact assign_new hnew member.2

/-! ## What the reader returns for a rendering -/

variable {total : Nat}

variable {c : UInt16}

theorem firm_of_head {rest : JsString} (hspace : Whitespace.isSpaceUnit c = false)
    (hslash : c ≠ slash) : Firm (c :: rest) := by
  constructor
  · intro d hd
    cases hd
    exact hspace
  · intro hprefix
    exact hslash (List.cons_prefix_cons.mp hprefix).1.symm
  · intro hprefix
    exact hslash (List.cons_prefix_cons.mp hprefix).1.symm

variable {written : JsString}

theorem Quoted.firm (h : Quoted written) (rest : JsString) : Firm (written ++ rest) := by
  obtain ⟨_⟩ := h
  exact firm_of_head (by decide) (by decide)

theorem space_isLiteralEnd (h : Whitespace.isSpaceUnit c = true) : isLiteralEnd c = true := by
  rw [isLiteralEnd, h]
  rfl

theorem space_of_not_end (h : isLiteralEnd c = false) : Whitespace.isSpaceUnit c = false := by
  by_contra hspace
  rw [space_isLiteralEnd (by simpa using hspace)] at h
  cases h

theorem Bare.firm {written rest : JsString} (h : Bare written)
    (hrest : ∀ c, rest.head? = some c → isLiteralEnd c = true) : Firm (written ++ rest) := by
  have hpair : ∀ second, isLiteralEnd second = false → ¬ [slash, second] <+: written →
      ¬ [slash, second] <+: written ++ rest := by
    intro second hsecond hnot hprefix
    obtain ⟨more, hmore⟩ := hprefix
    cases hwritten : written with
    | nil => exact h.ne_nil hwritten
    | cons c tail =>
        rw [hwritten] at hmore hnot
        simp only [List.cons_append, List.nil_append, List.cons.injEq] at hmore
        cases tail with
        | nil =>
            rw [List.nil_append] at hmore
            have hend := hrest second (by rw [← hmore.2]; rfl)
            rw [hsecond] at hend
            cases hend
        | cons d tail =>
            rw [List.cons_append, List.cons.injEq] at hmore
            exact hnot ⟨tail, by rw [hmore.1, hmore.2.1]; rfl⟩
  constructor
  · intro c hc
    rw [List.head?_append_of_ne_nil _ h.ne_nil] at hc
    exact space_of_not_end (h.word.head hc)
  · exact hpair star (by decide) h.block
  · exact hpair slash (by decide) h.line

theorem OpenBare.firm (h : OpenBare written) : Firm written := by
  constructor
  · intro c hc
    exact space_of_not_end (h.word.head hc)
  · exact h.block
  · exact h.line

theorem stops_cons (rest : JsString) (hend : isLiteralEnd c = true) (hopen : c ≠ openParen) :
    Stops (c :: rest) := by
  intro d hd
  cases hd
  exact ⟨hend, hopen⟩

/-- A gap that stands apart, and the token behind it. -/
theorem Apart.stops {written gap text : JsString} (h : Apart written gap) (hstops : Stops text)
    (hbare : Bare written) : Stops (gap ++ text) := by
  cases gap with
  | nil => exact hstops
  | cons c gap =>
      have hspace := h hbare c rfl
      apply stops_cons
      · exact space_isLiteralEnd hspace
      · rintro rfl
        exact absurd hspace (by decide)

variable {tree : Tree}

theorem Renders.firm {written rest : JsString} (h : Renders (.value tree) written)
    (hstops : Bare written → Stops rest) : Firm (written ++ rest) := by
  cases h with
  | quoted hquoted => exact hquoted.firm rest
  | bare hbare => exact hbare.firm fun c hc => (hstops hbare c hc).1
  | list _ => exact firm_of_head (by decide) (by decide)
  | dictionary _ => exact firm_of_head (by decide) (by decide)

/-- A value starts with none of the units that end a literal, but for its own bracket. -/
theorem Renders.head (h : Renders (.value tree) written) (rest : JsString) :
    (written ++ rest).head? ≠ some closeParen ∧
      (written ++ rest).head? ≠ some closeBrace := by
  cases h with
  | quoted hquoted =>
      obtain ⟨_⟩ := hquoted
      simp [show quote ≠ closeParen by decide, show quote ≠ closeBrace by decide]
  | bare hbare =>
      rw [List.head?_append_of_ne_nil _ hbare.ne_nil]
      constructor
      · intro heq
        exact absurd (hbare.word.head heq) (by decide)
      · intro heq
        exact absurd (hbare.word.head heq) (by decide)
  | list _ => simp [show openParen ≠ closeParen by decide, show openParen ≠ closeBrace by decide]
  | dictionary _ =>
      simp [show openBrace ≠ closeParen by decide, show openBrace ≠ closeBrace by decide]

theorem value_gap {gap : JsString} (h : Gap gap) (fuel : Nat) (text : JsString) :
    value total fuel (gap ++ text) = value total fuel text := by
  cases fuel with
  | zero => rfl
  | succ fuel => simp only [value, skip_gap h]

theorem expect_gap {gap : JsString} (h : Gap gap) {char : UInt16} (rest : JsString)
    (hspace : Whitespace.isSpaceUnit char = false) (hslash : char ≠ slash) :
    expect total char (gap ++ char :: rest) = .ok rest := by
  rw [expect, skip_gap h, skip_firm (firm_of_head hspace hslash)]
  simp [bind, Except.bind, pure, Except.pure]

/-- What the reader makes of the text of a part, when it has fuel for what it has not read. -/
def Reads (total : Nat) (part : Part) (text : JsString) : Prop :=
  match part with
  | .value tree => ∀ rest fuel, (Bare text → Stops rest) → 2 * (text ++ rest).length + 1 ≤ fuel →
      value total fuel (text ++ rest) = .ok (tree, rest)
  | .items items => ∀ rest fuel result, 2 * (text ++ rest).length + 2 ≤ fuel →
      list total fuel result (text ++ rest) = .ok (.list (result ++ items), rest)
  | .members members => ∀ rest fuel result, 2 * (text ++ rest).length + 2 ≤ fuel →
      dictionary total fuel result (text ++ rest) = .ok (.dictionary (members.foldl
        (fun result member => assign result member.1 member.2) result), rest)

theorem ok_bind {α β : Type} (a : α) (f : α → Except Failure β) : (Except.ok a >>= f) = f a := rfl

theorem reads_of_renders (total : Nat) {part : Part} {text : JsString} (h : Renders part text) :
    Reads total part text := by
  induction h with
  | @quoted written hquoted =>
      intro rest fuel _ hfuel
      obtain ⟨fuel, rfl⟩ : ∃ n, fuel = n + 1 := ⟨fuel - 1, by omega⟩
      have hhead : (written ++ rest).head? = some quote := by
        obtain ⟨_⟩ := hquoted
        rfl
      have hbrace : quote ≠ openBrace := by decide
      have hparen : quote ≠ openParen := by decide
      rw [value, skip_firm (hquoted.firm rest), ok_bind, hhead]
      simp only [Option.some.injEq, hbrace, hparen, if_false]
      rw [string_quoted hquoted]
      rfl
  | @bare written hbare =>
      intro rest fuel hstops hfuel
      obtain ⟨fuel, rfl⟩ : ∃ n, fuel = n + 1 := ⟨fuel - 1, by omega⟩
      have hfirm := hbare.firm fun c hc => (hstops hbare c hc).1
      have hend : ∀ c, (written ++ rest).head? = some c → isLiteralEnd c = false := by
        intro c hc
        rw [List.head?_append_of_ne_nil _ hbare.ne_nil] at hc
        exact hbare.word.head hc
      have hbrace : (written ++ rest).head? ≠ some openBrace := fun heq =>
        absurd (hend _ heq) (by decide)
      have hparen : (written ++ rest).head? ≠ some openParen := fun heq =>
        absurd (hend _ heq) (by decide)
      rw [value, skip_firm hfirm, ok_bind, if_neg hbrace, if_neg hparen,
        string_bare hbare (hstops hbare)]
      rfl
  | @list items body _ ih =>
      intro rest fuel _ hfuel
      obtain ⟨fuel, rfl⟩ : ∃ n, fuel = n + 1 := ⟨fuel - 1, by omega⟩
      have hbrace : openParen ≠ openBrace := by decide
      rw [List.cons_append, value, skip_firm (firm_of_head (by decide) (by decide)), ok_bind]
      simp only [List.head?_cons, Option.some.injEq, hbrace, if_false, if_true, List.tail_cons]
      apply ih rest fuel []
      simp only [List.cons_append, List.length_cons] at hfuel
      omega
  | @dictionary members body _ ih =>
      intro rest fuel _ hfuel
      obtain ⟨fuel, rfl⟩ : ∃ n, fuel = n + 1 := ⟨fuel - 1, by omega⟩
      rw [List.cons_append, value, skip_firm (firm_of_head (by decide) (by decide)), ok_bind]
      simp only [List.head?_cons, if_true, List.tail_cons]
      apply ih rest fuel []
      simp only [List.cons_append, List.length_cons] at hfuel
      omega
  | @noItems gap hgap =>
      intro rest fuel result hfuel
      obtain ⟨fuel, rfl⟩ : ∃ n, fuel = n + 1 := ⟨fuel - 1, by omega⟩
      rw [List.append_assoc, list, skip_gap hgap, List.singleton_append,
        skip_firm (firm_of_head (by decide) (by decide)), ok_bind]
      simp [pure, Except.pure]
  | @lastItem item gap written behind hgap hitem hbehind hapart ih =>
      intro rest fuel result hfuel
      obtain ⟨fuel, rfl⟩ : ∃ n, fuel = n + 1 := ⟨fuel - 1, by omega⟩
      have hstops : Bare written → Stops (behind ++ closeParen :: rest) :=
        hapart.stops (stops_cons rest (by decide) (by decide))
      have htext : gap ++ written ++ behind ++ [closeParen] ++ rest =
          gap ++ (written ++ (behind ++ closeParen :: rest)) := by simp
      rw [htext] at hfuel ⊢
      rw [list, skip_gap hgap, skip_firm (hitem.firm hstops), ok_bind,
        if_neg (hitem.head _).1, ih _ fuel hstops (by simp at hfuel ⊢; omega), ok_bind]
      dsimp only
      rw [skip_gap hbehind, skip_firm (firm_of_head (by decide) (by decide)), ok_bind]
      simp [show closeParen ≠ comma by decide, pure, Except.pure]
  | @item item items gap written behind more hgap hitem hbehind hapart _ ih ihitems =>
      intro rest fuel result hfuel
      obtain ⟨fuel, rfl⟩ : ∃ n, fuel = n + 1 := ⟨fuel - 1, by omega⟩
      have hstops : Bare written → Stops (behind ++ comma :: (more ++ rest)) :=
        hapart.stops (stops_cons _ (by decide) (by decide))
      have htext : gap ++ written ++ behind ++ comma :: more ++ rest =
          gap ++ (written ++ (behind ++ comma :: (more ++ rest))) := by simp
      rw [htext] at hfuel ⊢
      rw [list, skip_gap hgap, skip_firm (hitem.firm hstops), ok_bind,
        if_neg (hitem.head _).1, ih _ fuel hstops (by simp at hfuel ⊢; omega), ok_bind]
      dsimp only
      rw [skip_gap hbehind, skip_firm (firm_of_head (by decide) (by decide)), ok_bind]
      simp only [List.head?_cons, if_true, List.tail_cons]
      rw [ihitems rest fuel _ (by simp at hfuel ⊢; omega)]
      simp
  | @noMembers gap hgap =>
      intro rest fuel result hfuel
      obtain ⟨fuel, rfl⟩ : ∃ n, fuel = n + 1 := ⟨fuel - 1, by omega⟩
      rw [List.append_assoc, dictionary, skip_gap hgap, List.singleton_append,
        skip_firm (firm_of_head (by decide) (by decide)), ok_bind]
      simp [pure, Except.pure]
  | @member key tree members gap behindKey front written behind more hgap hkey hbehindKey
      hapartKey hfront hvalue hbehind hapart _ ih ihmembers =>
      intro rest fuel result hfuel
      obtain ⟨fuel, rfl⟩ : ∃ n, fuel = n + 1 := ⟨fuel - 1, by omega⟩
      have hstops : Bare written → Stops (behind ++ semicolon :: (more ++ rest)) :=
        hapart.stops (stops_cons _ (by decide) (by decide))
      have hstopsKey : Bare key → Stops (behindKey ++ equals ::
          (front ++ (written ++ (behind ++ semicolon :: (more ++ rest))))) :=
        hapartKey.stops (stops_cons _ (by decide) (by decide))
      have htext : gap ++ key ++ behindKey ++ equals ::
          (front ++ written ++ behind ++ semicolon :: more) ++ rest =
          gap ++ (key ++ (behindKey ++ equals ::
            (front ++ (written ++ (behind ++ semicolon :: (more ++ rest)))))) := by simp
      have hrenders : Renders (.value (.text key)) key := by
        obtain hquoted | hbare := hkey
        · exact .quoted hquoted
        · exact .bare hbare
      have hstring : string total (key ++ (behindKey ++ equals ::
          (front ++ (written ++ (behind ++ semicolon :: (more ++ rest)))))) =
          .ok (key, behindKey ++ equals ::
            (front ++ (written ++ (behind ++ semicolon :: (more ++ rest))))) := by
        obtain hquoted | hbare := hkey
        · exact string_quoted hquoted _
        · exact string_bare hbare (hstopsKey hbare)
      rw [htext] at hfuel ⊢
      rw [dictionary, skip_gap hgap, skip_firm (hrenders.firm hstopsKey), ok_bind,
        if_neg (hrenders.head _).2, hstring, ok_bind]
      dsimp only
      rw [expect_gap hbehindKey _ (by decide) (by decide), ok_bind, value_gap hfront,
        ih _ fuel hstops (by simp at hfuel ⊢; omega), ok_bind]
      dsimp only
      rw [expect_gap hbehind _ (by decide) (by decide), ok_bind,
        ihmembers rest fuel _ (by simp at hfuel ⊢; omega)]
      rfl

/-! ## What the reader returns is rendered -/

theorem Gap.apart {gap rest written : JsString} (h : Gap gap)
    (hend : Bare written → ∀ d, (gap ++ c :: rest).head? = some d → isLiteralEnd d = true) :
    Apart written gap := by
  intro hbare d hd
  have hliteral := hend hbare d (by
    cases gap with
    | nil => cases hd
    | cons e gap => exact hd)
  cases h with
  | nil => cases hd
  | space hspace _ =>
      cases hd
      exact hspace
  | block _ _ =>
      cases hd
      exact absurd hliteral (by decide)
  | line _ _ =>
      cases hd
      exact absurd hliteral (by decide)

theorem bind_eq_ok {α β : Type} {x : Except Failure α} {f : α → Except Failure β} {b : β}
    (h : (x >>= f) = .ok b) : ∃ a, x = .ok a ∧ f a = .ok b := by
  cases x with
  | error failure => cases h
  | ok a => exact ⟨a, rfl, h⟩

variable {text rest : JsString}

theorem skip_token (h : skip total text = .ok (c :: rest)) :
    ∃ gap, Gap gap ∧ text = gap ++ c :: rest := by
  obtain ⟨gap, hgap, htext, _⟩ | ⟨_, hnil⟩ := skip_eq_ok h
  · exact ⟨gap, hgap, htext⟩
  · cases hnil

theorem expect_eq_ok {char : UInt16} (h : expect total char text = .ok rest) :
    skip total text = .ok (char :: rest) := by
  obtain ⟨behind, hskip, h⟩ := bind_eq_ok h
  split at h
  · next hhead =>
    cases h
    rw [hskip, List.cons_head?_tail hhead]
  · cases h

theorem string_ne_nil {text written rest : JsString}
    (h : string total text = .ok (written, rest)) : text ≠ [] := by
  rintro rfl
  simp [string, literalLength, fail] at h

/-- What a value is read from; only a group that is left open ends elsewhere than its string. -/
def ReadsValue (text : JsString) (tree : Tree) (rest : JsString) : Prop :=
  ∃ gap written, Gap gap ∧ text = gap ++ (written ++ rest) ∧
    ((Renders (.value tree) written ∧
        (Bare written → ∀ c, rest.head? = some c → isLiteralEnd c = true)) ∨
      OpenBare written ∧ tree = .text written ∧ rest = [])

theorem Renders.ne_nil (h : Renders (.value tree) written) : written ≠ [] := by
  cases h with
  | quoted hquoted =>
      obtain ⟨_⟩ := hquoted
      simp
  | bare hbare => exact hbare.ne_nil
  | list _ => simp
  | dictionary _ => simp

theorem OpenBare.ne_nil (h : OpenBare written) : written ≠ [] := by
  cases h.word <;> simp

theorem ReadsValue.ne_nil (h : ReadsValue text tree rest) : text ≠ [] := by
  obtain ⟨gap, written, _, rfl, ⟨hrenders, _⟩ | ⟨hopen, _, _⟩⟩ := h
  · simp [hrenders.ne_nil]
  · simp [hopen.ne_nil]

/-- A value in front of a token, which no open group reaches. -/
theorem ReadsValue.token {text rest more : JsString} (h : ReadsValue text tree rest)
    (hskip : skip total rest = .ok (c :: more)) :
    ∃ gap written behind, Gap gap ∧ Renders (.value tree) written ∧ Gap behind ∧
      Apart written behind ∧ text = gap ++ written ++ behind ++ c :: more := by
  obtain ⟨gap, written, hgap, rfl, ⟨hrenders, hend⟩ | ⟨_, _, rfl⟩⟩ := h
  · obtain ⟨behind, hbehind, rfl⟩ := skip_token hskip
    exact ⟨gap, written, behind, hgap, hrenders, hbehind, hbehind.apart hend, by simp⟩
  · rw [skip] at hskip
    cases hskip

/-- What the three functions read, with some fuel. -/
structure Sound (total fuel : Nat) : Prop where
  value : ∀ {text tree rest}, NativeXcodeSyntax.value total fuel text = .ok (tree, rest) →
    ReadsValue text tree rest
  dictionary : ∀ {result text tree rest},
    NativeXcodeSyntax.dictionary total fuel result text = .ok (tree, rest) →
    ∃ members body, Renders (.members members) body ∧ text = body ++ rest ∧
      tree = .dictionary (members.foldl
        (fun result member => assign result member.1 member.2) result)
  list : ∀ {result text tree rest},
    NativeXcodeSyntax.list total fuel result text = .ok (tree, rest) →
    ∃ items body, Renders (.items items) body ∧ text = body ++ rest ∧
      tree = .list (result ++ items)

theorem not_bare_of_head {rest : JsString} (h : isLiteralEnd c = true) : ¬ Bare (c :: rest) := by
  intro hbare
  have hc := hbare.word.head (List.head?_cons ..)
  rw [h] at hc
  cases hc

theorem readsValue_string {text behind written rest : JsString}
    (hskip : skip total text = .ok behind) (h : string total behind = .ok (written, rest)) :
    ReadsValue text (.text written) rest := by
  obtain ⟨gap, hgap, rfl, hfirm⟩ | ⟨_, rfl⟩ := skip_eq_ok hskip
  · obtain ⟨rfl, hquoted | ⟨hbare, hend⟩ | ⟨hopen, rfl⟩⟩ := string_eq_ok hfirm h
    · refine ⟨gap, written, hgap, rfl, Or.inl ⟨.quoted hquoted, ?_⟩⟩
      intro hbare
      obtain ⟨_⟩ := hquoted
      exact absurd rfl hbare.quote
    · exact ⟨gap, written, hgap, rfl, Or.inl ⟨.bare hbare, fun _ => hend⟩⟩
    · exact ⟨gap, written, hgap, rfl, Or.inr ⟨hopen, rfl, rfl⟩⟩
  · exact absurd rfl (string_ne_nil h)

variable {fuel : Nat}

theorem sound_value (h : Sound total fuel)
    (hvalue : value total (fuel + 1) text = .ok (tree, rest)) : ReadsValue text tree rest := by
  rw [value] at hvalue
  obtain ⟨behind, hskip, hvalue⟩ := bind_eq_ok hvalue
  split at hvalue
  · next hhead =>
    obtain ⟨members, body, hbody, htail, rfl⟩ := h.dictionary hvalue
    have hbehind : behind = openBrace :: (body ++ rest) := by
      rw [← List.cons_head?_tail hhead, htail]
    rw [hbehind] at hskip
    obtain ⟨gap, hgap, rfl⟩ := skip_token hskip
    exact ⟨gap, openBrace :: body, hgap, rfl,
      Or.inl ⟨.dictionary hbody, fun hbare => absurd hbare (not_bare_of_head (by decide))⟩⟩
  · split at hvalue
    · next hhead =>
      obtain ⟨items, body, hbody, htail, rfl⟩ := h.list hvalue
      have hbehind : behind = openParen :: (body ++ rest) := by
        rw [← List.cons_head?_tail hhead, htail]
      rw [hbehind] at hskip
      obtain ⟨gap, hgap, rfl⟩ := skip_token hskip
      exact ⟨gap, openParen :: body, hgap, rfl,
        Or.inl ⟨.list hbody, fun hbare => absurd hbare (not_bare_of_head (by decide))⟩⟩
    · obtain ⟨⟨written, left⟩, hstring, hvalue⟩ := bind_eq_ok hvalue
      cases hvalue
      exact readsValue_string hskip hstring

theorem sound_dictionary (h : Sound total fuel) {result : List (JsString × Tree)}
    (hdict : dictionary total (fuel + 1) result text = .ok (tree, rest)) :
    ∃ members body, Renders (.members members) body ∧ text = body ++ rest ∧
      tree = .dictionary (members.foldl
        (fun result member => assign result member.1 member.2) result) := by
  rw [dictionary] at hdict
  obtain ⟨behind, hskip, hdict⟩ := bind_eq_ok hdict
  split at hdict
  · next hhead =>
    cases hdict
    have hbehind : behind = closeBrace :: behind.tail := (List.cons_head?_tail hhead).symm
    rw [hbehind] at hskip
    obtain ⟨gap, hgap, rfl⟩ := skip_token hskip
    exact ⟨[], gap ++ [closeBrace], .noMembers hgap, by simp, rfl⟩
  · obtain ⟨⟨key, afterKey⟩, hstring, hdict⟩ := bind_eq_ok hdict
    obtain ⟨afterEquals, hequals, hdict⟩ := bind_eq_ok hdict
    obtain ⟨⟨member, afterMember⟩, hmember, hdict⟩ := bind_eq_ok hdict
    obtain ⟨afterSemicolon, hsemicolon, hdict⟩ := bind_eq_ok hdict
    obtain ⟨members, body, hbody, rfl, rfl⟩ := h.dictionary hdict
    obtain ⟨gap, writtenKey, behindKey, hgap, hkey, hbehindKey, hapartKey, rfl⟩ :=
      (readsValue_string hskip hstring).token (expect_eq_ok hequals)
    obtain ⟨front, written, behindMember, hfront, hwritten, hbehindMember, hapart, rfl⟩ :=
      (h.value hmember).token (expect_eq_ok hsemicolon)
    have hkeys : writtenKey = key ∧ (Quoted key ∨ Bare key) := by
      cases hkey with
      | quoted hquoted => exact ⟨rfl, Or.inl hquoted⟩
      | bare hbare => exact ⟨rfl, Or.inr hbare⟩
    obtain ⟨rfl, hkeys⟩ := hkeys
    exact ⟨(writtenKey, member) :: members, _, .member hgap hkeys hbehindKey hapartKey hfront
      hwritten hbehindMember hapart hbody, by simp, rfl⟩

theorem sound_list (h : Sound total fuel) {result : List Tree}
    (hlist : list total (fuel + 1) result text = .ok (tree, rest)) :
    ∃ items body, Renders (.items items) body ∧ text = body ++ rest ∧
      tree = .list (result ++ items) := by
  rw [list] at hlist
  obtain ⟨behind, hskip, hlist⟩ := bind_eq_ok hlist
  split at hlist
  · next hhead =>
    cases hlist
    have hbehind : behind = closeParen :: behind.tail := (List.cons_head?_tail hhead).symm
    rw [hbehind] at hskip
    obtain ⟨gap, hgap, rfl⟩ := skip_token hskip
    exact ⟨[], gap ++ [closeParen], .noItems hgap, by simp, by simp⟩
  · obtain ⟨⟨item, afterItem⟩, hitem, hlist⟩ := bind_eq_ok hlist
    obtain ⟨next, hnext, hlist⟩ := bind_eq_ok hlist
    have hreads := h.value hitem
    obtain ⟨gap, hgap, htext⟩ : ∃ gap, Gap gap ∧ text = gap ++ behind := by
      obtain ⟨gap, hgap, htext, _⟩ | ⟨_, hnil⟩ := skip_eq_ok hskip
      · exact ⟨gap, hgap, htext⟩
      · exact absurd hnil hreads.ne_nil
    split at hlist
    · next hhead =>
      obtain ⟨items, body, hbody, htail, rfl⟩ := h.list hlist
      have hcomma : next = comma :: (body ++ rest) := by
        rw [← List.cons_head?_tail hhead, htail]
      rw [hcomma] at hnext
      obtain ⟨front, written, behindItem, hfront, hwritten, hbehindItem, hapart, rfl⟩ :=
        hreads.token hnext
      exact ⟨item :: items, _, .item (hgap.append hfront) hwritten hbehindItem hapart hbody,
        by rw [htext]; simp, by simp⟩
    · split at hlist
      · next hhead =>
        cases hlist
        rw [← List.cons_head?_tail hhead] at hnext
        obtain ⟨front, written, behindItem, hfront, hwritten, hbehindItem, hapart, rfl⟩ :=
          hreads.token hnext
        exact ⟨[item], _, .lastItem (hgap.append hfront) hwritten hbehindItem hapart,
          by rw [htext]; simp, rfl⟩
      · cases hlist

theorem sound (total fuel : Nat) : Sound total fuel := by
  induction fuel with
  | zero =>
      constructor
      · intro text tree rest h
        cases h
      · intro result text tree rest h
        cases h
      · intro result text tree rest h
        cases h
  | succ fuel ih => exact ⟨sound_value ih, sound_dictionary ih, sound_list ih⟩

/-! ## Every source is read to its end -/

/-- The reader has used up so much of what it had not read, or fails in the source.  One place
behind the source is where a backslash at its end takes the reader. -/
def Ended {α : Type} (total used most : Nat) (rest : α → JsString) (result : Except Failure α) :
    Prop :=
  (∀ a, result = .ok a → (rest a).length + used ≤ most) ∧
    ∀ failure, result = .error failure →
      ∃ reason offset, failure = .rejected reason offset ∧ offset ≤ total + 1

theorem Ended.bind {α β : Type} {total used most used' most' : Nat} {rest : α → JsString}
    {rest' : β → JsString} {x : Except Failure α} {f : α → Except Failure β}
    (hx : Ended total used most rest x)
    (hf : ∀ a, (rest a).length + used ≤ most → Ended total used' most' rest' (f a)) :
    Ended total used' most' rest' (x >>= f) := by
  cases x with
  | ok a => exact hf a (hx.1 a rfl)
  | error failure =>
      constructor
      · intro b hb
        cases hb
      · intro other hother
        apply hx.2 other
        cases hother
        rfl

theorem ended_fail {α : Type} {used most : Nat} {rest : α → JsString} (text : JsString)
    (reason : String) : Ended total used most rest (fail total text reason : Except Failure α) := by
  constructor
  · intro a ha
    cases ha
  · intro failure hfailure
    cases hfailure
    exact ⟨_, _, rfl, by omega⟩

theorem ended_ok {α : Type} {used most : Nat} {rest : α → JsString} {a : α}
    (h : (rest a).length + used ≤ most) : Ended total used most rest (.ok a) := by
  constructor
  · intro b hb
    cases hb
    exact h
  · intro failure hfailure
    cases hfailure

theorem ended_skip (text : JsString) : Ended total 0 text.length id (skip total text) := by
  have hmono : ∀ {n m : Nat} {result}, n ≤ m → Ended total 0 n id result →
      Ended total 0 m id result := by
    intro n m result hnm h
    exact ⟨fun a ha => Nat.le_trans (h.1 a ha) hnm, h.2⟩
  induction text using skip.induct with
  | case1 =>
      rw [skip]
      exact ended_ok (Nat.le_refl _)
  | case2 c text hspace ih =>
      rw [skip, if_pos hspace]
      exact hmono (by simp) ih
  | case3 c text hspace hblock hnone =>
      rw [skip, if_neg hspace, if_pos hblock]
      split
      · exact ended_fail _ _
      · next hsome =>
        rw [hnone] at hsome
        cases hsome
  | case4 c text hspace hblock behind hsome ih =>
      rw [skip, if_neg hspace, if_pos hblock]
      split
      · exact ended_fail _ _
      · next behind' hsome' =>
        rw [hsome] at hsome'
        cases hsome'
        have hlength := behindComment_length hsome
        rw [List.length_drop] at hlength
        exact hmono (by rw [List.length_cons]; omega) ih
  | case5 c text hspace hblock hline ih =>
      rw [skip, if_neg hspace, if_neg hblock, if_pos hline]
      have hlength := behindLine_length (text.drop 1)
      rw [List.length_drop] at hlength
      exact hmono (by rw [List.length_cons]; omega) ih
  | case6 c text hspace hblock hline =>
      rw [skip, if_neg hspace, if_neg hblock, if_neg hline]
      exact ended_ok (Nat.le_refl _)

theorem length_tail_of_head {text : JsString} (h : text.head? = some c) :
    text.tail.length + 1 = text.length := by
  rw [← List.cons_head?_tail h]
  rfl

theorem ended_expect (char : UInt16) (text : JsString) :
    Ended total 1 text.length id (expect total char text) := by
  apply (ended_skip text).bind
  intro rest hrest
  split
  · next hhead =>
    have htail := length_tail_of_head hhead
    apply ended_ok
    simp only [id] at hrest ⊢
    omega
  · exact ended_fail _ _

theorem ended_string (text : JsString) :
    Ended total 1 text.length Prod.snd (string total text) := by
  rw [string]
  split
  · next hhead =>
    have htail := length_tail_of_head hhead
    split
    · apply ended_ok
      simp only [List.length_drop]
      omega
    · next beyond hbeyond =>
      constructor
      · intro a ha
        cases ha
      · intro failure hfailure
        cases hfailure
        have := quotedLength_beyond hbeyond
        exact ⟨_, _, rfl, by omega⟩
  · split
    · exact ended_fail _ _
    · next hne =>
      have hsome : text ≠ [] := by
        rintro rfl
        exact hne rfl
      have hpos := List.length_pos_iff.mpr hsome
      apply ended_ok
      simp only [List.length_drop]
      omega

/-- The three functions end when they have fuel for what is not read yet. -/
structure Finite (total fuel : Nat) : Prop where
  value : ∀ text : JsString, 2 * text.length + 1 ≤ fuel →
    Ended total 1 text.length Prod.snd (NativeXcodeSyntax.value total fuel text)
  dictionary : ∀ result (text : JsString), 2 * text.length + 2 ≤ fuel →
    Ended total 0 text.length Prod.snd (NativeXcodeSyntax.dictionary total fuel result text)
  list : ∀ result (text : JsString), 2 * text.length + 2 ≤ fuel →
    Ended total 0 text.length Prod.snd (NativeXcodeSyntax.list total fuel result text)

theorem Ended.mono {α : Type} {used most used' most' : Nat} {rest : α → JsString}
    {x : Except Failure α} (h : Ended total used most rest x) (hle : most + used' ≤ most' + used) :
    Ended total used' most' rest x := by
  constructor
  · intro a ha
    have := h.1 a ha
    omega
  · exact h.2

theorem finite_value (h : Finite total fuel) (text : JsString)
    (hfuel : 2 * text.length + 1 ≤ fuel + 1) :
    Ended total 1 text.length Prod.snd (value total (fuel + 1) text) := by
  rw [value]
  apply (ended_skip text).bind
  intro behind hbehind
  simp only [id] at hbehind
  split
  · next hhead =>
    have htail := length_tail_of_head hhead
    exact (h.dictionary [] behind.tail (by omega)).mono (by omega)
  · split
    · next hhead =>
      have htail := length_tail_of_head hhead
      exact (h.list [] behind.tail (by omega)).mono (by omega)
    · apply (ended_string behind).bind
      intro written hwritten
      exact ended_ok (Nat.le_trans hwritten (by omega))

theorem finite_dictionary (h : Finite total fuel) (result : List (JsString × Tree))
    (text : JsString) (hfuel : 2 * text.length + 2 ≤ fuel + 1) :
    Ended total 0 text.length Prod.snd (dictionary total (fuel + 1) result text) := by
  rw [dictionary]
  apply (ended_skip text).bind
  intro behind hbehind
  simp only [id] at hbehind
  split
  · apply ended_ok
    simp only [List.length_tail]
    omega
  · apply (ended_string behind).bind
    intro key hkey
    apply (ended_expect equals key.2).bind
    intro afterEquals hequals
    simp only [id] at hequals
    apply (h.value afterEquals (by omega)).bind
    intro member hmember
    apply (ended_expect semicolon member.2).bind
    intro afterSemicolon hsemicolon
    simp only [id] at hsemicolon
    exact (h.dictionary _ afterSemicolon (by omega)).mono (by omega)

theorem finite_list (h : Finite total fuel) (result : List Tree) (text : JsString)
    (hfuel : 2 * text.length + 2 ≤ fuel + 1) :
    Ended total 0 text.length Prod.snd (list total (fuel + 1) result text) := by
  rw [list]
  apply (ended_skip text).bind
  intro behind hbehind
  simp only [id] at hbehind
  split
  · apply ended_ok
    simp only [List.length_tail]
    omega
  · apply (h.value behind (by omega)).bind
    intro item hitem
    apply (ended_skip item.2).bind
    intro next hnext
    simp only [id] at hnext
    split
    · next hhead =>
      have htail := length_tail_of_head hhead
      exact (h.list _ next.tail (by omega)).mono (by omega)
    · split
      · apply ended_ok
        simp only [List.length_tail]
        omega
      · exact ended_fail _ _

theorem finite (total fuel : Nat) : Finite total fuel := by
  induction fuel with
  | zero =>
      constructor
      · intro text hfuel
        omega
      · intro result text hfuel
        omega
      · intro result text hfuel
        omega
  | succ fuel ih => exact ⟨finite_value ih, finite_dictionary ih, finite_list ih⟩

/-! ## Whole sources -/

theorem parse_of_document {source : JsString} (h : Document tree source) :
    parseNativeXcodeSyntax source = .ok tree := by
  cases h with
  | @closed _ gap written behind hgap hwritten hbehind hapart =>
      have hstops : Bare written → Stops behind := by
        intro hbare c hc
        have hspace := hapart hbare c hc
        constructor
        · exact space_isLiteralEnd hspace
        · rintro rfl
          exact absurd hspace (by decide)
      have htext : gap ++ written ++ behind = gap ++ (written ++ behind) := List.append_assoc _ _ _
      rw [parseNativeXcodeSyntax, htext, value_gap hgap]
      have hvalue := reads_of_renders (gap ++ (written ++ behind)).length hwritten behind
        (2 * (gap ++ (written ++ behind)).length + 1) hstops (by
          simp only [List.length_append]
          omega)
      rw [hvalue, ok_bind]
      dsimp only
      rw [skip_endGap hbehind]
      rfl
  | @unclosed gap written hgap hwritten =>
      have hend : ∀ c, written.head? = some c → isLiteralEnd c = false :=
        fun c hc => hwritten.word.head hc
      have hbrace : written.head? ≠ some openBrace := fun heq => absurd (hend _ heq) (by decide)
      have hparen : written.head? ≠ some openParen := fun heq => absurd (hend _ heq) (by decide)
      rw [parseNativeXcodeSyntax, value_gap hgap, value, skip_firm hwritten.firm, ok_bind,
        if_neg hbrace, if_neg hparen, string_openBare hwritten, ok_bind]
      simp only [pure, Except.pure, ok_bind]
      rw [skip]
      rfl

theorem document_of_parse {source : JsString} (h : parseNativeXcodeSyntax source = .ok tree) :
    Document tree source := by
  obtain ⟨⟨result, rest⟩, hvalue, h⟩ := bind_eq_ok h
  obtain ⟨behind, hskip, h⟩ := bind_eq_ok h
  split at h
  · cases h
  · next hnil =>
    cases h
    have hnil : behind = [] := not_not.mp hnil
    rw [hnil] at hskip
    have hend : EndGap rest := by
      obtain ⟨gap, hgap, htext, _⟩ | ⟨hend, _⟩ := skip_eq_ok hskip
      · rw [htext, List.append_nil]
        exact .closed hgap
      · exact hend
    obtain ⟨gap, written, hgap, rfl, ⟨hrenders, hstop⟩ | ⟨hopen, rfl, rfl⟩⟩ :=
      (sound _ _).value hvalue
    · rw [← List.append_assoc]
      apply Document.closed hgap hrenders hend
      intro hbare c hc
      have hliteral := hstop hbare c hc
      have hgapEnd : ∀ {gap : JsString}, Gap gap → gap.head? = some c →
          Whitespace.isSpaceUnit c = true := by
        intro gap hgap hc
        cases hgap with
        | nil => cases hc
        | space hspace _ =>
            cases hc
            exact hspace
        | block _ _ =>
            cases hc
            exact absurd hliteral (by decide)
        | line _ _ =>
            cases hc
            exact absurd hliteral (by decide)
      cases hend with
      | closed hbehind => exact hgapEnd hbehind hc
      | @line front body hfront hbody =>
          cases front with
          | nil =>
              cases hc
              exact absurd hliteral (by decide)
          | cons d front => exact hgapEnd hfront hc
    · rw [List.append_nil]
      exact .unclosed hgap hopen

/-- The reader returns a tree just for the sources that render it, and ends with every other source
at a failure in it. -/
theorem reads_grammar (source : JsString) :
    (∀ tree, Document tree source ↔ parseNativeXcodeSyntax source = .ok tree) ∧
      ((∃ tree, parseNativeXcodeSyntax source = .ok tree) ∨
        ∃ reason offset, parseNativeXcodeSyntax source = .error (.rejected reason offset) ∧
          offset ≤ source.length + 1) := by
  constructor
  · intro tree
    exact ⟨parse_of_document, document_of_parse⟩
  · have hended : Ended source.length 0 0 (fun _ : Tree => ([] : JsString))
        (parseNativeXcodeSyntax source) := by
      rw [parseNativeXcodeSyntax]
      apply ((finite _ _).value source (Nat.le_refl _)).bind
      intro result _
      apply (ended_skip result.2).bind
      intro rest _
      split
      · exact ended_fail _ _
      · exact ended_ok (Nat.le_refl _)
    cases hparse : parseNativeXcodeSyntax source with
    | ok tree => exact Or.inl ⟨tree, rfl⟩
    | error failure =>
        obtain ⟨reason, offset, rfl, hoffset⟩ := hended.2 failure hparse
        exact Or.inr ⟨reason, offset, rfl, hoffset⟩

end Stim.NativeXcodeSyntax
