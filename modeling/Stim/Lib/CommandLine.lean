import Mathlib.Data.List.Basic

/-!
# Splitting a command line

Arguments are separated by blanks outside of quotes.  A run of slashes is literal unless a quote
follows it; then every two slashes are one, and a slash that is left makes the quote literal.
Within quotes some splitters take a pair of quotes for a literal one.

`quoted` is a word as such a splitter reads it back: between quotes, with the slashes in front of a
quote doubled.
-/

namespace CommandLine

variable {α : Type} [DecidableEq α]

/-- The units that a splitter looks at, and whether it knows pairs of quotes. -/
structure Rules (α : Type) where
  slash : α
  quote : α
  blank : α → Bool
  pairs : Bool
  slash_ne_quote : slash ≠ quote
  slash_not_blank : blank slash = false
  quote_not_blank : blank quote = false

/-- Units in front of an argument. -/
def prepend (units : List α) (parsed : List α × List α) : List α × List α :=
  (units ++ parsed.1, parsed.2)

variable (rules : Rules α)

/-- The rest of an argument, and what follows it: after so many slashes, within quotes or not. -/
def argument (inquote : Bool) (slashes : Nat) : List α → List α × List α
  | [] => (List.replicate slashes rules.slash, [])
  | c :: rest =>
      if c = rules.slash then argument inquote (slashes + 1) rest
      else if c = rules.quote then
        if slashes % 2 = 1 then
          prepend (List.replicate (slashes / 2) rules.slash ++ [rules.quote])
            (argument inquote 0 rest)
        else if rules.pairs && inquote && rest.head? == some rules.quote then
          prepend (List.replicate (slashes / 2) rules.slash ++ [rules.quote])
            (argument inquote 0 rest.tail)
        else prepend (List.replicate (slashes / 2) rules.slash) (argument (!inquote) 0 rest)
      else if !inquote && rules.blank c then (List.replicate slashes rules.slash, c :: rest)
      else prepend (List.replicate slashes rules.slash ++ [c]) (argument inquote 0 rest)
termination_by text => text.length
decreasing_by all_goals simp; try omega

omit [DecidableEq α] in
theorem prepend_length (units : List α) (parsed : List α × List α) :
    (prepend units parsed).2 = parsed.2 := rfl

theorem argument_length (inquote : Bool) (slashes : Nat) (text : List α) :
    (argument rules inquote slashes text).2.length ≤ text.length := by
  fun_induction argument rules inquote slashes text with
  | case1 => simp
  | case2 inquote slashes rest ih => simp only [List.length_cons]; omega
  | case3 inquote slashes rest _ _ ih => simp only [prepend_length, List.length_cons]; omega
  | case4 inquote slashes rest _ _ _ ih =>
      simp only [prepend_length, List.length_cons, List.length_tail] at ih ⊢
      omega
  | case5 inquote slashes rest _ _ _ ih => simp only [prepend_length, List.length_cons]; omega
  | case6 => exact Nat.le_refl _
  | case7 inquote slashes c rest _ _ _ ih => simp only [prepend_length, List.length_cons]; omega

/-- An argument takes its first unit. -/
theorem argument_shorter {c : α} (h : rules.blank c = false) (rest : List α) :
    (argument rules false 0 (c :: rest)).2.length < (c :: rest).length := by
  rw [List.length_cons, Nat.lt_succ_iff]
  by_cases hSlash : c = rules.slash
  · rw [argument, if_pos hSlash]
    exact argument_length rules false _ rest
  by_cases hQuote : c = rules.quote
  · rw [argument, if_neg hSlash, if_pos hQuote, if_neg (by decide), if_neg (by simp)]
    exact argument_length rules true 0 rest
  · rw [argument, if_neg hSlash, if_neg hQuote, if_neg (by simp [h])]
    exact argument_length rules false 0 rest

/-- The arguments of a command line. -/
def splitArguments (text : List α) : List (List α) :=
  match _h : text.dropWhile rules.blank with
  | [] => []
  | c :: rest =>
      (argument rules false 0 (c :: rest)).1 ::
        splitArguments (argument rules false 0 (c :: rest)).2
termination_by text.length
decreasing_by
  have hBlank : rules.blank c = false := by
    have hHead := List.head?_dropWhile_not rules.blank text
    simpa [_h] using hHead
  have hShorter := argument_shorter rules hBlank rest
  have hDrop := (List.dropWhile_sublist rules.blank (l := text)).length_le
  rw [_h] at hDrop
  omega

/-! ## Quoted words -/

/-- A word with the slashes in front of a quote or of the end doubled, after so many slashes. -/
def doubled (slashes : Nat) : List α → List α
  | [] => List.replicate (2 * slashes) rules.slash
  | c :: rest =>
      if c = rules.slash then doubled (slashes + 1) rest
      else if c = rules.quote then
        List.replicate (2 * slashes) rules.slash ++ rules.slash :: rules.quote :: doubled 0 rest
      else List.replicate slashes rules.slash ++ c :: doubled 0 rest

def quoted (word : List α) : List α := rules.quote :: (doubled rules 0 word ++ [rules.quote])

theorem argument_slashes (inquote : Bool) (slashes count : Nat) (rest : List α) :
    argument rules inquote slashes (List.replicate count rules.slash ++ rest) =
      argument rules inquote (slashes + count) rest := by
  induction count generalizing slashes with
  | zero => rfl
  | succ count ih =>
      rw [List.replicate_succ, List.cons_append, argument, if_pos rfl, ih]
      congr 1
      omega

/-- Where an argument ends that is not within quotes. -/
def AtEnd (text : List α) : Prop := ∀ c, text.head? = some c → rules.blank c = true

theorem argument_atEnd {text : List α} (h : AtEnd rules text) (slashes : Nat) :
    argument rules false slashes text = (List.replicate slashes rules.slash, text) := by
  cases text with
  | nil => rw [argument]
  | cons c rest =>
      have hBlank := h c rfl
      have hSlash : c ≠ rules.slash := by
        rintro rfl
        simp [rules.slash_not_blank] at hBlank
      have hQuote : c ≠ rules.quote := by
        rintro rfl
        simp [rules.quote_not_blank] at hBlank
      rw [argument, if_neg hSlash, if_neg hQuote, if_pos (by simp [hBlank])]

variable {tail : List α}

/-- Within quotes, a doubled word is read back up to the quote that ends it. -/
theorem argument_doubled (h : AtEnd rules tail) (slashes : Nat) (word : List α) :
    argument rules true 0 (doubled rules slashes word ++ rules.quote :: tail) =
      (List.replicate slashes rules.slash ++ word, tail) := by
  induction word generalizing slashes with
  | nil =>
      have hNoPair : (tail.head? == some rules.quote) = false := by
        rw [beq_eq_false_iff_ne]
        intro hHead
        have hBlank := h _ hHead
        simp [rules.quote_not_blank] at hBlank
      rw [doubled, argument_slashes, argument, if_neg rules.slash_ne_quote.symm, if_pos rfl,
        if_neg (by omega), if_neg (by simp [hNoPair]), Bool.not_true, argument_atEnd rules h,
        show (0 + 2 * slashes) / 2 = slashes by omega]
      rfl
  | cons c word ih =>
      rw [doubled]
      split_ifs with hSlash hQuote
      · rw [ih, List.replicate_succ', hSlash, List.append_assoc]
        rfl
      · have hAgain := ih 0
        rw [List.append_assoc, argument_slashes, List.cons_append, List.cons_append, argument,
          if_pos rfl, argument, if_neg rules.slash_ne_quote.symm, if_pos rfl,
          if_pos (by omega), hAgain, hQuote]
        simp only [prepend, List.replicate_zero, List.nil_append, List.append_assoc]
        rw [show (0 + 2 * slashes + 1) / 2 = slashes by omega]
        rfl
      · have hAgain := ih 0
        rw [List.append_assoc, argument_slashes, List.cons_append, argument, if_neg hSlash,
          if_neg hQuote, if_neg (by simp), hAgain]
        simp [prepend]

theorem argument_quoted (h : AtEnd rules tail) (word : List α) :
    argument rules false 0 (quoted rules word ++ tail) = (word, tail) := by
  rw [quoted, List.cons_append, List.append_assoc, argument, if_neg rules.slash_ne_quote.symm,
    if_pos rfl, if_neg (by decide), if_neg (by simp), Bool.not_false]
  rw [show [rules.quote] ++ tail = rules.quote :: tail from rfl, argument_doubled rules h]
  rfl

theorem splitArguments_end {text : List α} (h : text.dropWhile rules.blank = []) :
    splitArguments rules text = [] := by
  rw [splitArguments]
  split
  · rfl
  · rename_i c rest hDrop
    rw [h] at hDrop
    cases hDrop

theorem splitArguments_cons {text rest : List α} {c : α}
    (h : text.dropWhile rules.blank = c :: rest) :
    splitArguments rules text = (argument rules false 0 (c :: rest)).1 ::
      splitArguments rules (argument rules false 0 (c :: rest)).2 := by
  rw [splitArguments]
  split
  · rename_i hDrop
    rw [h] at hDrop
    cases hDrop
  · rename_i d more hDrop
    rw [h] at hDrop
    obtain ⟨rfl, rfl⟩ := List.cons.inj hDrop
    rfl

theorem splitArguments_blank {blank : α} (h : rules.blank blank = true) (text : List α) :
    splitArguments rules (blank :: text) = splitArguments rules text := by
  have hBlank : (blank :: text).dropWhile rules.blank = text.dropWhile rules.blank :=
    List.dropWhile_cons_of_pos h
  cases hDrop : text.dropWhile rules.blank with
  | nil => rw [splitArguments_end rules hDrop, splitArguments_end rules (hBlank.trans hDrop)]
  | cons c rest =>
      rw [splitArguments_cons rules hDrop, splitArguments_cons rules (hBlank.trans hDrop)]

theorem splitArguments_word (h : AtEnd rules tail) (word : List α) :
    splitArguments rules (quoted rules word ++ tail) = word :: splitArguments rules tail := by
  have hWord := argument_quoted rules h word
  have hDrop : (quoted rules word ++ tail).dropWhile rules.blank = quoted rules word ++ tail :=
    List.dropWhile_cons_of_neg (by simp [rules.quote_not_blank])
  rw [splitArguments_cons rules hDrop]
  exact congrArg (fun parsed => parsed.1 :: splitArguments rules parsed.2) hWord

/-- Quoted words with a blank between them are split into the words. -/
theorem splitArguments_quoted {blank : α} (h : rules.blank blank = true) (words : List (List α)) :
    splitArguments rules (List.intercalate [blank] (words.map (quoted rules))) = words := by
  induction words with
  | nil => exact splitArguments_end rules rfl
  | cons word words ih =>
      cases words with
      | nil =>
          have hEnd : AtEnd rules [] := nofun
          have hWord := splitArguments_word rules hEnd word
          have hNil : splitArguments rules ([] : List α) = [] := splitArguments_end rules rfl
          rw [List.append_nil, hNil] at hWord
          simpa [List.intercalate] using hWord
      | cons next words =>
          have hEnd : AtEnd rules (blank ::
              List.intercalate [blank] ((next :: words).map (quoted rules))) := by
            intro c hc
            obtain rfl := Option.some.inj hc
            exact h
          have hWord := splitArguments_word rules hEnd word
          rw [splitArguments_blank rules h, ih] at hWord
          have hJoin : List.intercalate [blank] ((word :: next :: words).map (quoted rules)) =
              quoted rules word ++
                blank :: List.intercalate [blank] ((next :: words).map (quoted rules)) := by
            simp [List.intercalate]
          rw [hJoin, hWord]

end CommandLine
