import Mathlib.Data.List.Forall2
import Stim.Lib.Json.Parse
import Stim.Lib.Reading
import Stim.Server.JsonSpans

/-!
# The spans are those of the parsed values

On every text that parses as an object the scan ends.  Each span it gives of an array is the text
of the element at that place, and each text it gives of a member is, between braces, that member.
-/

namespace Stim.Server.JsonSpans

open Json Reading

variable {text front rest space : JsString} {pos : Nat}

/-! ## Passing over tokens -/

theorem skipSpace_eq (hspace : Spaces space) (h : text.drop pos = space ++ rest)
    (hrest : ∀ u more, rest = u :: more → isSpace u = false) :
    skipSpace text pos = pos + space.length := by
  induction space generalizing pos with
  | nil =>
      cases rest with
      | nil =>
          have hnone : text[pos]? = none := by
            rw [← List.head?_drop, h]
            rfl
          rw [skipSpace]
          split
          · rfl
          · next char hchar => rw [hnone] at hchar; cases hchar
      | cons u more =>
          rw [skipSpace]
          split
          · rfl
          · next char hchar =>
            rw [getElem?_of_drop h] at hchar
            cases hchar
            rw [hrest u more rfl]
            rfl
  | cons u space ih =>
      have hu : isSpace u = true := hspace u List.mem_cons_self
      rw [skipSpace]
      split
      · next hnone => rw [getElem?_of_drop h] at hnone; cases hnone
      · next char hchar =>
        rw [getElem?_of_drop h] at hchar
        cases hchar
        rw [if_pos hu, ih (fun v hv => hspace v (List.mem_cons_of_mem _ hv)) (drop_succ h),
          List.length_cons]
        omega

variable {u : UInt16}

theorem skipSpace_cons (hspace : Spaces space) (h : text.drop pos = space ++ u :: rest)
    (hu : isSpace u = false) : skipSpace text pos = pos + space.length :=
  skipSpace_eq hspace h fun v more heq => by
    cases heq
    exact hu

/-- One unit of a string is passed over. -/
theorem skipString_cons (h : text.drop pos = u :: rest) :
    skipString text pos =
      if u = quotationMark then some (pos + 1)
      else skipString text (pos + if u = backslash then 2 else 1) := by
  rw [skipString]
  split
  · next hnone => rw [getElem?_of_drop h] at hnone; cases hnone
  · next char hchar =>
    rw [getElem?_of_drop h] at hchar
    cases hchar
    rfl

/-- Units that are neither a quotation mark nor a backslash are passed over one by one. -/
theorem skipString_plain (hquote : u ≠ quotationMark) (hslash : u ≠ backslash)
    (h : text.drop pos = u :: rest) : skipString text pos = skipString text (pos + 1) := by
  rw [skipString_cons h, if_neg hquote, if_neg hslash]

theorem skipString_escape (h : text.drop pos = backslash :: u :: rest) :
    skipString text pos = skipString text (pos + 2) := by
  rw [skipString_cons h, if_neg (by decide), if_pos rfl]

/-- A hexadecimal digit is neither a quotation mark nor a backslash. -/
theorem hexValue_plain {n : Nat} (h : hexValue u = some n) : u ≠ quotationMark ∧ u ≠ backslash := by
  constructor
  · rintro rfl
    cases h
  · rintro rfl
    cases h

theorem hexUnit_plain {a b c d u : UInt16} (h : hexUnit a b c d = some u) :
    (a ≠ quotationMark ∧ a ≠ backslash) ∧ (b ≠ quotationMark ∧ b ≠ backslash) ∧
      (c ≠ quotationMark ∧ c ≠ backslash) ∧ (d ≠ quotationMark ∧ d ≠ backslash) := by
  unfold hexUnit at h
  split at h
  · next ha hb hc hd =>
    exact ⟨hexValue_plain ha, hexValue_plain hb, hexValue_plain hc, hexValue_plain hd⟩
  · cases h

/-- A string is passed over up to behind its closing quotation mark. -/
theorem skipString_eq {s : JsString} (hchars : Chars front s)
    (h : text.drop pos = front ++ quotationMark :: rest) :
    skipString text pos = some (pos + front.length + 1) := by
  induction hchars generalizing pos with
  | nil => rw [skipString_cons h, if_pos rfl, List.length_nil, Nat.add_zero]
  | plain hquote hslash hcontrol hchars ih =>
      rw [skipString_plain hquote hslash h, ih (drop_succ h), List.length_cons]
      congr 1
      omega
  | escape hu hchars ih =>
      rw [skipString_escape h, ih (drop_succ (drop_succ h))]
      simp only [List.length_cons]
      congr 1
      omega
  | unicode hu hchars ih =>
      obtain ⟨⟨haq, has⟩, ⟨hbq, hbs⟩, ⟨hcq, hcs⟩, ⟨hdq, hds⟩⟩ := hexUnit_plain hu
      have ha := drop_succ (drop_succ h)
      have hb := drop_succ ha
      have hc := drop_succ hb
      have hd := drop_succ hc
      rw [skipString_escape h, skipString_plain haq has ha, skipString_plain hbq hbs hb,
        skipString_plain hcq hcs hc, skipString_plain hdq hds hd, ih (drop_succ hd)]
      simp only [List.length_cons]
      congr 1
      omega

theorem skipPlain_eq (hfront : ∀ u ∈ front, endsValue u = false)
    (h : text.drop pos = front ++ rest) (hrest : Ends rest) :
    skipPlain text pos = pos + front.length := by
  induction front generalizing pos with
  | nil =>
      rw [skipPlain]
      split
      · rfl
      · next char hchar =>
        rw [← List.head?_drop, h, List.nil_append] at hchar
        obtain ⟨more, hmore⟩ := List.head?_eq_some_iff.mp hchar
        rw [if_pos (hrest char more hmore)]
        rfl
  | cons u front ih =>
      rw [skipPlain]
      split
      · next hnone => rw [getElem?_of_drop h] at hnone; cases hnone
      · next char hchar =>
        rw [getElem?_of_drop h] at hchar
        cases hchar
        rw [hfront u List.mem_cons_self, ih (fun v hv => hfront v (List.mem_cons_of_mem _ hv))
          (drop_succ h), List.length_cons]
        simp only [Bool.false_eq_true, if_false]
        omega

/-! ## Passing over containers -/

/-- A container's scan goes on behind `front` as it was before it. -/
def Passes (front : JsString) : Prop :=
  ∀ (text rest : JsString) (pos : Nat) (depth : Int), 1 ≤ depth →
    text.drop pos = front ++ rest →
    skipContainer text pos depth = skipContainer text (pos + front.length) depth

/-- What the scan of a container does at a unit. -/
theorem skipContainer_cons {depth : Int} (h : text.drop pos = u :: rest)
    (hquote : u ≠ quotationMark) :
    skipContainer text pos depth =
      if u = leftBrace ∨ u = leftBracket then skipContainer text (pos + 1) (depth + 1)
      else if u = rightBrace ∨ u = rightBracket then
        if depth - 1 = 0 then some (pos + 1) else skipContainer text (pos + 1) (depth - 1)
      else skipContainer text (pos + 1) depth := by
  rw [skipContainer]
  split
  · next hnone => rw [getElem?_of_drop h] at hnone; cases hnone
  · next char hchar =>
    rw [getElem?_of_drop h] at hchar
    cases hchar
    rw [if_neg hquote]

namespace Passes

theorem nil : Passes [] := by
  intro text rest pos depth hdepth h
  rfl

theorem append {front back : JsString} (hfront : Passes front) (hback : Passes back) :
    Passes (front ++ back) := by
  intro text rest pos depth hdepth h
  rw [List.append_assoc] at h
  rw [hfront text _ pos depth hdepth h, hback text rest _ depth hdepth (drop_behind h),
    List.length_append, Nat.add_assoc]

/-- A unit that is no quotation mark, bracket or brace. -/
theorem unit {u : UInt16} (hquote : u ≠ quotationMark)
    (hopen : ¬ (u = leftBrace ∨ u = leftBracket)) (hclose : ¬ (u = rightBrace ∨ u = rightBracket)) :
    Passes [u] := by
  intro text rest pos depth hdepth h
  rw [skipContainer_cons h hquote, if_neg hopen, if_neg hclose]
  rfl

theorem units {front : JsString} (h : ∀ u ∈ front, Passes [u]) : Passes front := by
  induction front with
  | nil => exact nil
  | cons u front ih =>
      exact append (h u List.mem_cons_self) (ih fun v hv => h v (List.mem_cons_of_mem _ hv))

theorem spaces (hspace : Spaces space) : Passes space := by
  apply units
  intro u hu
  have hu := hspace u hu
  apply unit
  · rintro rfl
    cases hu
  · rintro (rfl | rfl) <;> cases hu
  · rintro (rfl | rfl) <;> cases hu

theorem plain {v : Json} (h : plainValue front = some v) : Passes front := by
  apply units
  intro u hu
  obtain ⟨hends, hquote, hbracket, hbrace⟩ := word_unit ((isWord_of_plainValue h).2 u hu)
  apply unit hquote
  · rintro (rfl | rfl)
    · exact hbrace rfl
    · exact hbracket rfl
  · rintro (rfl | rfl) <;> cases hends

theorem string {s : JsString} (hchars : Chars front s) :
    Passes (quotationMark :: front ++ [quotationMark]) := by
  intro text rest pos depth hdepth h
  rw [List.cons_append, List.cons_append, List.append_assoc] at h
  have hskip := skipString_eq hchars (drop_succ h)
  rw [skipContainer]
  split
  · next hnone => rw [getElem?_of_drop h] at hnone; cases hnone
  · next char hchar =>
    rw [getElem?_of_drop h] at hchar
    cases hchar
    rw [if_pos rfl]
    split
    · next hnone => rw [hskip] at hnone; cases hnone
    · next next hnext =>
      rw [hskip] at hnext
      cases hnext
      simp only [List.length_append, List.length_cons, List.length_nil]
      congr 1
      omega

/-- The brackets around what is passed over are counted up and down again. -/
theorem bracketed {left right : UInt16} (hleft : left = leftBrace ∨ left = leftBracket)
    (hright : right = rightBrace ∨ right = rightBracket) (hfront : Passes front) :
    Passes (left :: front ++ [right]) := by
  intro text rest pos depth hdepth h
  rw [List.cons_append, List.cons_append, List.append_assoc] at h
  have hbehind := drop_behind (drop_succ h)
  have hquote : left ≠ quotationMark := by rcases hleft with rfl | rfl <;> decide
  have hquote' : right ≠ quotationMark := by rcases hright with rfl | rfl <;> decide
  have hopen : ¬ (right = leftBrace ∨ right = leftBracket) := by
    rcases hright with rfl | rfl <;> decide
  rw [skipContainer_cons h hquote, if_pos hleft,
    hfront text _ (pos + 1) (depth + 1) (by omega) (drop_succ h),
    skipContainer_cons hbehind hquote', if_neg hopen, if_pos hright, if_neg (by omega)]
  simp only [List.length_append, List.length_cons, List.length_nil]
  congr 1
  · omega
  · omega

end Passes

theorem passes_of_grammar {node : Node} (h : Grammar node front) : Passes front := by
  have hcolon : Passes [colon] := Passes.unit (by decide) (by decide) (by decide)
  have hcomma : Passes [comma] := Passes.unit (by decide) (by decide) (by decide)
  induction h with
  | plain hplain => exact .plain hplain
  | string hchars => exact .string hchars
  | emptyArray hspace => exact .bracketed (by decide) (by decide) (.spaces hspace)
  | array h ih => exact .bracketed (by decide) (by decide) ih
  | emptyObject hspace => exact .bracketed (by decide) (by decide) (.spaces hspace)
  | object h ih => exact .bracketed (by decide) (by decide) ih
  | element hbefore h hafter ih =>
      exact ((Passes.spaces hbefore).append ih).append (.spaces hafter)
  | elements hbefore h hafter hmore ih ihmore =>
      exact (((Passes.spaces hbefore).append ih).append (.spaces hafter)).append
        (hcomma.append ihmore)
  | member hbefore hkey hbeforeColon hafterColon h hafter ih =>
      exact (((Passes.spaces hbefore).append (.string hkey)).append (.spaces hbeforeColon)).append
        (hcolon.append (((Passes.spaces hafterColon).append ih).append (.spaces hafter)))
  | members hbefore hkey hbeforeColon hafterColon h hafter hmore ih ihmore =>
      exact (((Passes.spaces hbefore).append (.string hkey)).append (.spaces hbeforeColon)).append
        (hcolon.append ((((Passes.spaces hafterColon).append ih).append (.spaces hafter)).append
          (hcomma.append ihmore)))

/-- A container is passed over up to behind the bracket that closes it. -/
theorem skipContainer_eq {left right : UInt16} (hleft : left = leftBrace ∨ left = leftBracket)
    (hright : right = rightBrace ∨ right = rightBracket) (hfront : Passes front)
    (h : text.drop pos = left :: front ++ [right] ++ rest) :
    skipContainer text pos 0 = some (pos + (left :: front ++ [right]).length) := by
  rw [List.cons_append, List.cons_append, List.append_assoc] at h
  have hbehind := drop_behind (drop_succ h)
  have hquote : left ≠ quotationMark := by rcases hleft with rfl | rfl <;> decide
  have hquote' : right ≠ quotationMark := by rcases hright with rfl | rfl <;> decide
  have hopen : ¬ (right = leftBrace ∨ right = leftBracket) := by
    rcases hright with rfl | rfl <;> decide
  rw [skipContainer_cons h hquote, if_pos hleft,
    hfront text _ (pos + 1) (0 + 1) (by omega) (drop_succ h),
    skipContainer_cons hbehind hquote', if_neg hopen, if_pos hright, if_pos (by omega)]
  simp only [List.length_append, List.length_cons, List.length_nil]
  congr 1
  omega

/-- A string is passed over whatever follows it. -/
theorem skipValue_string {s : JsString} (hchars : Chars front s)
    (h : text.drop pos = quotationMark :: front ++ [quotationMark] ++ rest) :
    skipValue text pos = some (pos + (quotationMark :: front ++ [quotationMark]).length) := by
  rw [List.cons_append, List.cons_append, List.append_assoc] at h
  rw [skipValue, getElem?_of_drop h, if_pos rfl, skipString_eq hchars (drop_succ h)]
  simp only [List.length_append, List.length_cons, List.length_nil]
  congr 1
  omega

variable {v : Json}

/-- A value is passed over. -/
theorem skipValue_eq (hvalue : Grammar (.value v) front) (h : text.drop pos = front ++ rest)
    (hrest : Ends rest) : skipValue text pos = some (pos + front.length) := by
  have hcontainer : ∀ {left right : UInt16} {inner : JsString},
      left = leftBrace ∨ left = leftBracket → right = rightBrace ∨ right = rightBracket →
      Passes inner → text.drop pos = left :: inner ++ [right] ++ rest →
      skipValue text pos = some (pos + (left :: inner ++ [right]).length) := by
    intro left right inner hleft hright hinner h
    have hget : text[pos]? = some left := by
      rw [List.cons_append, List.cons_append] at h
      exact getElem?_of_drop h
    rw [skipValue, hget, if_neg (by rcases hleft with rfl | rfl <;> decide),
      if_pos (by simpa using hleft)]
    exact skipContainer_eq hleft hright hinner h
  cases hvalue with
  | plain hplain =>
      obtain ⟨hne, hword⟩ := isWord_of_plainValue hplain
      obtain ⟨u, more, rfl⟩ := List.exists_cons_of_ne_nil hne
      obtain ⟨-, hquote, hbracket, hbrace⟩ := word_unit (hword u List.mem_cons_self)
      have hget : text[pos]? = some u := getElem?_of_drop h
      rw [skipValue, hget, if_neg (by simpa using hquote), if_neg (by simp [hbracket, hbrace]),
        skipPlain_eq (fun v hv => (word_unit (hword v hv)).1) h hrest]
  | string hchars => exact skipValue_string hchars h
  | emptyArray hspace => exact hcontainer (by decide) (by decide) (.spaces hspace) h
  | array hinner => exact hcontainer (by decide) (by decide) (passes_of_grammar hinner) h
  | emptyObject hspace => exact hcontainer (by decide) (by decide) (.spaces hspace) h
  | object hinner => exact hcontainer (by decide) (by decide) (passes_of_grammar hinner) h

/-! ## The members of a container -/

theorem spaces_nil : Spaces [] := fun _ hu => absurd hu List.not_mem_nil

theorem parse_value (h : Grammar (.value v) front) : parse front = some v :=
  parse_eq_some_iff.mpr ⟨[], front, [], by simp, spaces_nil, h, spaces_nil⟩

theorem memberAt_element (hvalue : Grammar (.value v) front) (h : text.drop pos = front ++ rest)
    (hrest : Ends rest) : memberAt text false pos = .ok ⟨.null, pos, pos + front.length, pos⟩ := by
  rw [memberAt, if_neg Bool.false_ne_true, skipValue_eq hvalue h hrest]

theorem memberAt_member {key name beforeColon afterColon : JsString} (hkey : Chars key name)
    (hbeforeColon : Spaces beforeColon) (hafterColon : Spaces afterColon)
    (hvalue : Grammar (.value v) front) (hrest : Ends rest)
    (h : text.drop pos = quotationMark :: key ++ [quotationMark] ++ (beforeColon ++
      colon :: (afterColon ++ (front ++ rest)))) :
    ∃ start, memberAt text true pos = .ok ⟨.string name, start, start + front.length, pos⟩ ∧
      text.drop start = front ++ rest ∧
      start = pos + (quotationMark :: key ++ [quotationMark] ++ beforeColon ++
        colon :: afterColon).length := by
  have hcolonAt := drop_behind h
  have hspaceAt := drop_succ (drop_behind hcolonAt)
  have hvalueAt := drop_behind hspaceAt
  have hparse : parse (slice text pos (pos + (quotationMark :: key ++ [quotationMark]).length)) =
      some (.string name) := by
    rw [slice, slice_of_drop h]
    exact parse_value (.string hkey)
  have hfirst : ∀ u more, front ++ rest = u :: more → isSpace u = false := by
    intro u more heq
    obtain ⟨w, behind, hcons, hw⟩ := exists_first hvalue
    rw [hcons, List.cons_append] at heq
    cases heq
    exact isSpace_of_endsValue hw
  refine ⟨_, ?_, hvalueAt, ?_⟩
  · rw [memberAt, if_pos rfl, skipValue_string hkey h]
    simp only [hparse, skipSpace_cons hbeforeColon hcolonAt (show isSpace colon = false by decide),
      skipSpace_eq hafterColon hspaceAt hfirst, skipValue_eq hvalue hvalueAt hrest]
  · simp only [List.length_append, List.length_cons, List.length_nil]
    omega

/-- A turn of the loop: its member, then the turns behind the comma or before the bracket. -/
theorem members_turn {object : Bool} {before after : JsString} {u w : UInt16} {member : Member}
    (hbefore : Spaces before) (hfirst : text.drop pos = before ++ u :: rest)
    (hu : endsValue u = false) (hmember : memberAt text object (pos + before.length) = .ok member)
    (hstop : pos < member.stop) (hafter : Spaces after)
    (hbehind : text.drop member.stop = after ++ w :: front) (hw : isSpace w = false) :
    ∃ next, text.drop next = (if w = comma then front else w :: front) ∧
      members text object pos = (members text object next).map (member :: ·) := by
  have hat : skipSpace text pos = pos + before.length :=
    skipSpace_cons hbefore hfirst (isSpace_of_endsValue hu)
  have hget : text[pos + before.length]? = some u := getElem?_of_drop (drop_behind hfirst)
  have hnot : ¬ (some u = some rightBrace ∨ some u = some rightBracket) := by
    rintro (heq | heq) <;> cases heq <;> cases hu
  have hcomma := drop_behind hbehind
  have hnext : nextIndex text member.stop =
      if w = comma then member.stop + after.length + 1 else member.stop + after.length := by
    rw [nextIndex]
    simp only [skipSpace_cons hafter hbehind hw, getElem?_of_drop hcomma, Option.some.injEq]
  have hlength : pos ≤ text.length := by
    by_contra hlt
    rw [List.drop_of_length_le (by omega)] at hfirst
    exact absurd (congrArg List.length hfirst) (by simp)
  refine ⟨nextIndex text member.stop, ?_, ?_⟩
  · rw [hnext]
    split
    · exact drop_succ hcomma
    · exact hcomma
  · have hmoves : pos < nextIndex text member.stop := by
      rw [hnext]
      split <;> omega
    rw [members]
    simp only [hat, hget]
    rw [if_neg hnot, hmember]
    simp only
    rw [if_pos ⟨hmoves, hlength⟩]

/-- The last turn sees the closing bracket. -/
theorem members_close {object : Bool} (hspace : Spaces space)
    (h : text.drop pos = space ++ u :: rest) (hu : u = rightBrace ∨ u = rightBracket) :
    members text object pos = .ok [] := by
  have hnot : isSpace u = false := by rcases hu with rfl | rfl <;> decide
  rw [members]
  simp only [skipSpace_cons hspace h hnot, getElem?_of_drop (drop_behind h), Option.some.injEq]
  rw [if_pos hu]

/-- The value of a member stands where it was found. -/
def Finds (text : JsString) (v : Json) (found : Member) : Prop :=
  ∃ front rest, text.drop found.start = front ++ rest ∧
    found.stop = found.start + front.length ∧ Grammar (.value v) front

theorem Finds.parse_slice {found : Member} (h : Finds text v found) :
    parse (slice text found.start found.stop) = some v := by
  obtain ⟨front, rest, hdrop, hstop, hvalue⟩ := h
  rw [hstop, slice, slice_of_drop hdrop]
  exact parse_value hvalue

/-- A member of an object is found, with its name and with its text. -/
def FindsMember (text : JsString) (member : JsString × Json) (found : Member) : Prop :=
  found.key = .string member.1 ∧ Finds text member.2 found ∧
    Grammar (.members [member]) (slice text found.memberStart found.stop)

/-- The turn of an element. -/
theorem members_element {before after behind : JsString} {w : UInt16} (hbefore : Spaces before)
    (hvalue : Grammar (.value v) front) (hafter : Spaces after) (hw : endsValue w = true)
    (hspace : isSpace w = false) (h : text.drop pos = before ++ (front ++ (after ++ w :: behind))) :
    ∃ found next, Finds text v found ∧
      text.drop next = (if w = comma then behind else w :: behind) ∧
      members text false pos = (members text false next).map (found :: ·) := by
  have hat := drop_behind h
  obtain ⟨u, more, hcons, hu⟩ := exists_first hvalue
  have hmember := memberAt_element hvalue hat (ends_append hafter (ends_cons hw))
  have hlength : 0 < front.length := by
    rw [hcons]
    exact Nat.succ_pos _
  have hfirst : text.drop pos = before ++ u :: (more ++ (after ++ w :: behind)) := by
    rw [h, hcons, List.cons_append]
  obtain ⟨next, hnext, hturn⟩ := members_turn hbefore hfirst hu hmember (by simp only; omega)
    hafter (drop_behind hat) hspace
  exact ⟨⟨.null, pos + before.length, pos + before.length + front.length, pos + before.length⟩,
    next, ⟨front, _, hat, rfl, hvalue⟩, hnext, hturn⟩

/-- The turn of a member. -/
theorem members_member {before key name beforeColon afterColon after behind : JsString}
    {w : UInt16} (hbefore : Spaces before) (hkey : Chars key name)
    (hbeforeColon : Spaces beforeColon) (hafterColon : Spaces afterColon)
    (hvalue : Grammar (.value v) front) (hafter : Spaces after) (hw : endsValue w = true)
    (hspace : isSpace w = false)
    (h : text.drop pos = before ++ (quotationMark :: key ++ [quotationMark] ++ (beforeColon ++
      colon :: (afterColon ++ (front ++ (after ++ w :: behind)))))) :
    ∃ found next, FindsMember text (name, v) found ∧
      text.drop next = (if w = comma then behind else w :: behind) ∧
      members text true pos = (members text true next).map (found :: ·) := by
  have hat := drop_behind h
  obtain ⟨start, hmember, hstart, heq⟩ := memberAt_member hkey hbeforeColon hafterColon hvalue
    (ends_append hafter (ends_cons hw)) hat
  have hwhole : text.drop (pos + before.length) = (quotationMark :: key ++ [quotationMark] ++
      beforeColon ++ colon :: (afterColon ++ front)) ++ (after ++ w :: behind) := by
    rw [hat]
    simp only [List.append_assoc, List.cons_append]
  have hstop : start + front.length = pos + before.length + (quotationMark :: key ++
      [quotationMark] ++ beforeColon ++ colon :: (afterColon ++ front)).length := by
    rw [heq]
    simp only [List.length_append, List.length_cons, List.length_nil]
    omega
  have hmoves : pos < start + front.length := by
    rw [hstop, List.length_append, List.length_cons]
    omega
  have htext : Grammar (.members [(name, v)]) (slice text (pos + before.length)
      (start + front.length)) := by
    have hgrammar := Grammar.member spaces_nil hkey hbeforeColon hafterColon hvalue spaces_nil
    rw [hstop, slice, slice_of_drop hwhole]
    rw [List.nil_append, List.append_nil] at hgrammar
    exact hgrammar
  obtain ⟨next, hnext, hturn⟩ := members_turn hbefore h (by decide) hmember hmoves hafter
    (drop_behind hstart) hspace
  exact ⟨⟨.string name, start, start + front.length, pos + before.length⟩, next,
    ⟨rfl, ⟨front, _, hstart, rfl, hvalue⟩, htext⟩, hnext, hturn⟩

/-- What is found of a text that is derived. -/
def Found (text : JsString) : Node → JsString → Prop
  | .value _, _ => True
  | .elements vs, front => ∀ pos rest, text.drop pos = front ++ rightBracket :: rest →
      ∃ found, members text false pos = .ok found ∧ List.Forall₂ (Finds text) vs found
  | .members ms, front => ∀ pos rest, text.drop pos = front ++ rightBrace :: rest →
      ∃ found, members text true pos = .ok found ∧ List.Forall₂ (FindsMember text) ms found

theorem found_of_grammar {node : Node} (h : Grammar node front) : Found text node front := by
  induction h with
  | plain => trivial
  | string => trivial
  | emptyArray => trivial
  | array => trivial
  | emptyObject => trivial
  | object => trivial
  | element hbefore hvalue hafter ih =>
      intro pos rest h
      rw [List.append_assoc, List.append_assoc] at h
      obtain ⟨found, next, hfound, hnext, hturn⟩ :=
        members_element hbefore hvalue hafter (by decide) (by decide) h
      rw [if_neg (by decide)] at hnext
      rw [members_close spaces_nil hnext (Or.inr rfl)] at hturn
      exact ⟨[found], hturn, .cons hfound .nil⟩
  | elements hbefore hvalue hafter hmore ih ihmore =>
      intro pos rest h
      simp only [List.append_assoc, List.cons_append] at h
      obtain ⟨found, next, hfound, hnext, hturn⟩ :=
        members_element hbefore hvalue hafter (by decide) (by decide) h
      rw [if_pos rfl] at hnext
      obtain ⟨others, hothers, hall⟩ := ihmore next rest hnext
      rw [hothers] at hturn
      exact ⟨found :: others, hturn, .cons hfound hall⟩
  | member hbefore hkey hbeforeColon hafterColon hvalue hafter ih =>
      intro pos rest h
      simp only [List.append_assoc, List.cons_append] at h
      obtain ⟨found, next, hfound, hnext, hturn⟩ :=
        members_member hbefore hkey hbeforeColon hafterColon hvalue hafter
          (show endsValue rightBrace = true by decide) (by decide)
          (by simpa only [List.append_assoc, List.cons_append] using h)
      rw [if_neg (by decide)] at hnext
      rw [members_close spaces_nil hnext (Or.inl rfl)] at hturn
      exact ⟨[found], hturn, .cons hfound .nil⟩
  | members hbefore hkey hbeforeColon hafterColon hvalue hafter hmore ih ihmore =>
      intro pos rest h
      simp only [List.append_assoc, List.cons_append] at h
      obtain ⟨found, next, hfound, hnext, hturn⟩ :=
        members_member hbefore hkey hbeforeColon hafterColon hvalue hafter
          (show endsValue comma = true by decide) (by decide)
          (by simpa only [List.append_assoc, List.cons_append] using h)
      rw [if_pos rfl] at hnext
      obtain ⟨others, hothers, hall⟩ := ihmore next rest hnext
      rw [hothers] at hturn
      exact ⟨found :: others, hturn, .cons hfound hall⟩

/-- The elements of the array that stands at `pos`. -/
theorem eachMember_array {vs : List Json} (h : Grammar (.value (.array vs)) front)
    (hdrop : text.drop pos = front ++ rest) :
    text[pos]? = some leftBracket ∧
      ∃ found, eachMember text pos = .ok found ∧ List.Forall₂ (Finds text) vs found := by
  cases h with
  | plain hplain =>
      unfold plainValue at hplain
      split_ifs at hplain <;> cases hplain
  | emptyArray hspace =>
      rw [List.cons_append, List.cons_append, List.append_assoc] at hdrop
      have hget := getElem?_of_drop hdrop
      refine ⟨hget, [], ?_, .nil⟩
      rw [eachMember]
      exact members_close hspace (drop_succ hdrop) (Or.inr rfl)
  | array hinner =>
      rw [List.cons_append, List.cons_append, List.append_assoc] at hdrop
      have hget := getElem?_of_drop hdrop
      obtain ⟨found, hfound, hall⟩ := found_of_grammar hinner (pos + 1) rest (drop_succ hdrop)
      refine ⟨hget, found, ?_, hall⟩
      rw [eachMember, hget]
      exact hfound

variable {ms : List (JsString × Json)}

/-- The members of the object that stands at `pos`. -/
theorem eachMember_object (h : Grammar (.value (.object ms)) front)
    (hdrop : text.drop pos = front ++ rest) :
    ∃ found, eachMember text pos = .ok found ∧ List.Forall₂ (FindsMember text) ms found := by
  cases h with
  | plain hplain =>
      unfold plainValue at hplain
      split_ifs at hplain <;> cases hplain
  | emptyObject hspace =>
      rw [List.cons_append, List.cons_append, List.append_assoc] at hdrop
      refine ⟨[], ?_, .nil⟩
      rw [eachMember]
      exact members_close hspace (drop_succ hdrop) (Or.inl rfl)
  | object hinner =>
      rw [List.cons_append, List.cons_append, List.append_assoc] at hdrop
      obtain ⟨found, hfound, hall⟩ := found_of_grammar hinner (pos + 1) rest (drop_succ hdrop)
      refine ⟨found, ?_, hall⟩
      rw [eachMember, getElem?_of_drop hdrop]
      exact hfound

/-- Only an array begins with a bracket. -/
theorem exists_elements_of_bracket (h : Grammar (.value v) (leftBracket :: front)) :
    ∃ vs, v = .array vs := by
  generalize hwhole : leftBracket :: front = whole at h
  cases h with
  | plain hplain =>
      rw [← hwhole] at hplain
      have hword := (isWord_of_plainValue hplain).2 leftBracket List.mem_cons_self
      cases hword
  | string => cases hwhole
  | emptyArray => exact ⟨_, rfl⟩
  | array => exact ⟨_, rfl⟩
  | emptyObject => cases hwhole
  | object => cases hwhole

/-! ## Both scans -/

/-- The top-level object is found. -/
theorem eachMember_top (h : parse text = some (.object ms)) :
    ∃ found, eachMember text (skipSpace text 0) = .ok found ∧
      List.Forall₂ (FindsMember text) ms found := by
  obtain ⟨before, front, after, htext, hbefore, hgrammar, hafter⟩ := parse_eq_some_iff.mp h
  obtain ⟨u, more, hcons, hu⟩ := exists_first hgrammar
  have hdrop : text.drop 0 = before ++ (front ++ after) := by
    rw [List.drop_zero, htext, List.append_assoc]
  have hspace : skipSpace text 0 = 0 + before.length := by
    rw [hcons, List.cons_append] at hdrop
    exact skipSpace_cons hbefore hdrop (isSpace_of_endsValue hu)
  rw [hspace]
  exact eachMember_object hgrammar (drop_behind hdrop)

theorem isName_of_finds {member : JsString × Json} {found : Member}
    (h : FindsMember text member found) (name : JsString) :
    isName found.key name = (member.1 == name) := by
  rw [h.1]
  rfl

/-- The last member of a name is found where it stands. -/
theorem last_of_finds {found : List Member} (h : List.Forall₂ (FindsMember text) ms found)
    (name : JsString) :
    (lookup ms name = none ∧ (found.filter fun m => isName m.key name).getLast? = none) ∨
    ∃ v m, lookup ms name = some v ∧ Finds text v m ∧
      (found.filter fun m => isName m.key name).getLast? = some m := by
  have hfind : ∀ {as : List (JsString × Json)} {bs : List Member},
      List.Forall₂ (FindsMember text) as bs →
      (as.find? (·.1 == name) = none ∧ bs.find? (fun m => isName m.key name) = none) ∨
      ∃ a b, as.find? (·.1 == name) = some a ∧ FindsMember text a b ∧
        bs.find? (fun m => isName m.key name) = some b := by
    intro as bs hall
    induction hall with
    | nil => exact Or.inl ⟨rfl, rfl⟩
    | @cons a b as bs hab hall ih =>
        rw [List.find?_cons, List.find?_cons, isName_of_finds hab]
        cases a.1 == name with
        | true => exact Or.inr ⟨a, b, rfl, hab, rfl⟩
        | false => exact ih
  rw [lookup, List.getLast?_eq_head?_reverse, ← List.filter_reverse, List.head?_filter]
  rcases hfind (List.forall₂_reverse_iff.mpr h) with ⟨hnone, hnone'⟩ | ⟨a, b, ha, hab, hb⟩
  · exact Or.inl ⟨by rw [hnone]; rfl, hnone'⟩
  · exact Or.inr ⟨a.2, b, by rw [ha]; rfl, hab.2.1, hb⟩

theorem arrayElementSpans_array {name : JsString} {vs : List Json}
    (h : parse text = some (.object ms)) (hname : lookup ms name = some (.array vs)) :
    ∃ spans, arrayElementSpans text name = .ok (some spans) ∧
      List.Forall₂ (fun v span => parse (slice text span.1 span.2) = some v) vs spans := by
  obtain ⟨found, hfound, hall⟩ := eachMember_top h
  rcases last_of_finds hall name with ⟨hnone, -⟩ | ⟨v, m, hv, hfinds, hlast⟩
  · rw [hname] at hnone
    cases hnone
  · rw [hname] at hv
    cases hv
    obtain ⟨front, rest, hdrop, -, hgrammar⟩ := hfinds
    obtain ⟨hbracket, elements, helements, hspans⟩ := eachMember_array hgrammar hdrop
    refine ⟨elements.map fun element => (element.start, element.stop), ?_, ?_⟩
    · rw [arrayElementSpans, hfound]
      simp only [hlast]
      rw [if_pos hbracket, helements]
      rfl
    · rw [List.forall₂_map_right_iff]
      exact hspans.imp fun _ _ hfinds => hfinds.parse_slice

theorem arrayElementSpans_null {name : JsString} (h : parse text = some (.object ms))
    (hname : ∀ vs, lookup ms name ≠ some (.array vs)) : arrayElementSpans text name = .ok none := by
  obtain ⟨found, hfound, hall⟩ := eachMember_top h
  rw [arrayElementSpans, hfound]
  rcases last_of_finds hall name with ⟨-, hlast⟩ | ⟨v, m, hv, hfinds, hlast⟩
  · simp only [hlast]
  · simp only [hlast]
    rw [if_neg]
    intro hbracket
    obtain ⟨front, rest, hdrop, -, hgrammar⟩ := hfinds
    obtain ⟨u, more, rfl, -⟩ := exists_first hgrammar
    rw [List.cons_append] at hdrop
    rw [getElem?_of_drop hdrop] at hbracket
    cases hbracket
    obtain ⟨vs, rfl⟩ := exists_elements_of_bracket hgrammar
    exact hname vs hv

/-- A member's text is the member between braces. -/
theorem parse_braces {member : JsString × Json} (h : Grammar (.members [member]) front) :
    parse (leftBrace :: front ++ [rightBrace]) = some (.object [member]) :=
  parse_value (.object h)

theorem otherMembers_eq (h : parse text = some (.object ms)) (omitted : List JsString) :
    ∃ texts, otherMembers text omitted = .ok texts ∧
      List.Forall₂ (fun member front =>
        front <:+: text ∧ parse (leftBrace :: front ++ [rightBrace]) = some (.object [member]))
        (ms.filter fun member => !omitted.contains member.1) texts := by
  obtain ⟨found, hfound, hall⟩ := eachMember_top h
  refine ⟨_, by rw [otherMembers, hfound]; rfl, ?_⟩
  rw [List.forall₂_map_right_iff]
  clear hfound h
  induction hall with
  | nil => exact .nil
  | @cons member found ms others hfinds hall ih =>
      have hsame : omitted.any (isName found.key) = omitted.contains member.1 := by
        rw [List.contains_eq_any_beq]
        congr 1
        funext name
        exact isName_of_finds hfinds name
      rw [List.filter_cons, List.filter_cons, hsame]
      split
      · refine .cons ⟨?_, parse_braces hfinds.2.2⟩ ih
        exact (List.drop_suffix _ _).isInfix.trans (List.take_prefix _ _).isInfix
      · exact ih

/-- Both scans end on every text that parses as an object.  Where the last member of a name is an
array, its spans are as many as its elements and each is the text of the element at its place;
otherwise there are none.  The other members are given, in their order, as texts that are these
members between braces. -/
theorem spans_agree {ms : List (JsString × Json)} (h : parse text = some (.object ms)) :
    (∀ name vs, lookup ms name = some (.array vs) →
      ∃ spans, arrayElementSpans text name = .ok (some spans) ∧
        List.Forall₂ (fun v span => parse (slice text span.1 span.2) = some v) vs spans) ∧
    (∀ name, (∀ vs, lookup ms name ≠ some (.array vs)) →
      arrayElementSpans text name = .ok none) ∧
    ∀ omitted, ∃ texts, otherMembers text omitted = .ok texts ∧
      List.Forall₂ (fun member front =>
        front <:+: text ∧ parse (leftBrace :: front ++ [rightBrace]) = some (.object [member]))
        (ms.filter fun member => !omitted.contains member.1) texts :=
  ⟨fun _ _ hname => arrayElementSpans_array h hname,
    fun _ hname => arrayElementSpans_null h hname, otherMembers_eq h⟩

/-- `{"a":[1,"]"]}` -/
def bracketInString : JsString :=
  [0x7B, 0x22, 0x61, 0x22, 0x3A, 0x5B, 0x31, 0x2C, 0x22, 0x5D, 0x22, 0x5D, 0x7D]

theorem parse_bracketInString : parse bracketInString =
    some (.object [([0x61], .array [.number [0x31], .string [0x5D]])]) := by
  have hkey : Chars [0x61] [0x61] := .plain (by decide) (by decide) (by decide) .nil
  have hstring : Chars [0x5D] [0x5D] := .plain (by decide) (by decide) (by decide) .nil
  have hone : Grammar (.value (.number [0x31])) [0x31] := .plain rfl
  have harray := Grammar.array (.elements spaces_nil hone spaces_nil
    (.element spaces_nil (.string hstring) spaces_nil))
  exact parse_value (.object (.member spaces_nil hkey spaces_nil spaces_nil harray spaces_nil))

/-- The bracket in the string closes no array: there are two elements. -/
theorem spans_agree_bracketInString :
    ∃ spans, arrayElementSpans bracketInString [0x61] = .ok (some spans) ∧ spans.length = 2 := by
  obtain ⟨hspans, -⟩ := spans_agree parse_bracketInString
  obtain ⟨spans, hspans, hall⟩ := hspans [0x61] _ rfl
  exact ⟨spans, hspans, hall.length_eq.symm⟩

end Stim.Server.JsonSpans
