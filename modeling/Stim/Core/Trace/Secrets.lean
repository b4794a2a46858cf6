import Mathlib.Data.Nat.Digits.Lemmas
import Stim.Core.Trace

/-!
# What the trace hides

An exact value that is long enough, and made of units that the replacements lack, is in no text that
went through `scrubText`.  It can be in a redacted argument list only where a secret-looking name is
written as it stands.
-/

namespace Stim.Trace

/-- A value that is too long for a replacement and has none of the units that set one off. -/
structure Secret (value : JsString) : Prop where
  long : 20 ≤ value.length
  clear : ∀ u ∈ value, Whitespace.isSpaceUnit u = false ∧ u ∉ lit "*[]."

namespace Secret

variable {value : JsString}

theorem of_all (hlong : 20 ≤ value.length)
    (hclear : value.all (fun u => !Whitespace.isSpaceUnit u && !(lit "*[].").contains u) = true) :
    Secret value := by
  constructor
  · exact hlong
  · intro u hu
    simpa using List.all_eq_true.mp hclear u hu

theorem not_mem (h : Secret value) {u : UInt16} (hu : u ∈ lit "*[].") : u ∉ value := by
  intro hmem
  exact (h.clear u hmem).2 hu

theorem ne_nil (h : Secret value) : value ≠ [] := by
  rintro rfl
  exact absurd h.long (by decide)

theorem not_infix_short (h : Secret value) {text : JsString} (hshort : text.length < 20) :
    ¬ value <:+: text := by
  intro hin
  have := hin.length_le
  have := h.long
  omega

theorem seals_stars (h : Secret value) : Regex.Seals (lit "***") value := by
  have hlong := h.long
  exact ⟨42, [42], 42, by decide, h.not_mem (by decide), h.not_mem (by decide), by simp; omega⟩

theorem seals_dots (h : Secret value) : Regex.Seals (lit "...") value := by
  have hlong := h.long
  exact ⟨46, [46], 46, by decide, h.not_mem (by decide), h.not_mem (by decide), by simp; omega⟩

theorem seals_redacted (h : Secret value) : Regex.Seals redacted value := by
  have hlong := h.long
  have hlength : (lit "redacted").length = 8 := by decide
  exact ⟨91, lit "redacted", 93, by decide, h.not_mem (by decide), h.not_mem (by decide), by omega⟩

theorem seals_blank (h : Secret value) : Regex.Seals (lit " " ++ redacted) value := by
  have hlong := h.long
  have hlength : (lit "[redacted").length = 9 := by decide
  have hspace : (32 : UInt16) ∉ value := by
    intro hmem
    exact absurd (h.clear 32 hmem).1 (by decide)
  exact ⟨32, lit "[redacted", 93, by decide, hspace, h.not_mem (by decide), by omega⟩

/-- A text in front of a replacement holds all of the value that reaches into it. -/
theorem not_infix_append (h : Secret value) {text put : JsString} (hseals : Regex.Seals put value)
    (htext : ¬ value <:+: text) : ¬ value <:+: text ++ put := by
  intro hin
  rw [← List.append_nil (text ++ put)] at hin
  obtain hin | hin := hseals.infix hin
  · exact htext hin
  · exact h.ne_nil (List.infix_nil.mp hin)

end Secret

/-! ## Scrubbed texts -/

variable {value : JsString} {exact : List JsString}

theorem seals_scrubRules (h : Secret value) : ∀ rule ∈ scrubRules, Regex.Seals rule.put value := by
  intro rule hrule
  simp only [scrubRules, List.mem_cons, List.not_mem_nil, or_false] at hrule
  obtain rfl | rfl | rfl | rfl | rfl := hrule
  · exact h.seals_redacted
  · exact h.seals_redacted
  · exact h.seals_redacted
  · exact h.seals_blank
  · exact h.seals_redacted

variable {text : JsString}

theorem avoids_rules (rules : List (Regex.Rule UInt16))
    (hseals : ∀ rule ∈ rules, Regex.Seals rule.put value) (htext : ¬ value <:+: text) :
    ¬ value <:+: rules.foldl (fun acc rule => rule.replaceAll acc) text := by
  induction rules generalizing text with
  | nil => exact htext
  | cons rule rules ih =>
      rw [List.foldl_cons]
      apply ih
      · intro other hother
        exact hseals other (List.mem_cons_of_mem rule hother)
      · exact rule.avoids_replaceAll (hseals rule List.mem_cons_self) htext

theorem avoids_foldl_exact (h : Secret value) (others : List JsString) (htext : ¬ value <:+: text) :
    ¬ value <:+: others.foldl replaceExact text := by
  induction others generalizing text with
  | nil => exact htext
  | cons other others ih =>
      rw [List.foldl_cons]
      apply ih
      exact (Regex.wordRule other (lit "***")).avoids_replaceAll h.seals_stars htext

/-- The value goes when its turn comes, and no later value brings it back. -/
theorem avoids_exact (h : Secret value) (values : List JsString) (hmem : value ∈ values)
    (text : JsString) : ¬ value <:+: values.foldl replaceExact text := by
  induction values generalizing text with
  | nil => cases hmem
  | cons other values ih =>
      rw [List.foldl_cons]
      obtain rfl | hrest := List.mem_cons.mp hmem
      · exact avoids_foldl_exact h values (Regex.avoids_word h.seals_stars h.ne_nil text)
      · exact ih hrest _

theorem avoids_scrubText (h : Secret value) (hmem : value ∈ exact) (text : JsString) :
    ¬ value <:+: scrubText text exact := by
  apply avoids_rules scrubRules (seals_scrubRules h)
  apply avoids_exact h
  simpa using ⟨hmem, h.ne_nil⟩

theorem avoids_clip (h : Secret value) (htext : ¬ value <:+: text) (max : Nat) :
    ¬ value <:+: clip text max := by
  rw [clip]
  split
  · apply h.not_infix_append h.seals_dots
    intro hin
    exact htext (hin.trans (List.take_prefix _ _).isInfix)
  · exact htext

theorem avoids_redactCommandLine (h : Secret value) (hmem : value ∈ exact) (command : JsString) :
    ¬ value <:+: redactCommandLine command exact :=
  avoids_clip h (avoids_scrubText h hmem _) _

theorem avoids_scrubArg (h : Secret value) (hmem : value ∈ exact) (arg : JsString) :
    ¬ value <:+: scrubArg arg exact :=
  avoids_clip h (avoids_scrubText h hmem _) _

/-! ## Argument lists -/

/-- The name that a branch writes as it stands. -/
def Shape.bareName (arg : JsString) : Shape → Option JsString
  | .flag name => if SECRET_NAME.test name then some (name ++ lit "=") else none
  | .secretFlag => some arg
  | .assignment name => some (name ++ lit "=")
  | _ => none

/-- The arguments that are no hidden value of the one before them. -/
def unhidden (credentialFlags : List JsString) : Bool → List JsString → List JsString
  | _, [] => []
  | true, _ :: args => unhidden credentialFlags false args
  | false, arg :: args =>
      arg :: unhidden credentialFlags (shapeOf credentialFlags arg).takesNext args

variable {credentialFlags : List JsString}

/-- Each string that the loop writes hides a value or stands for an argument. -/
theorem mem_redactFrom {hidden : Bool} {args : List JsString} {s : JsString}
    (h : s ∈ redactFrom exact credentialFlags hidden args) :
    s = redacted ∨ ∃ arg ∈ unhidden credentialFlags hidden args,
      s = (shapeOf credentialFlags arg).written exact credentialFlags arg := by
  induction args generalizing hidden with
  | nil => cases hidden <;> cases h
  | cons arg args ih =>
      cases hidden with
      | true =>
          obtain rfl | h := List.mem_cons.mp h
          · exact Or.inl rfl
          · exact ih h
      | false =>
          obtain rfl | h := List.mem_cons.mp h
          · exact Or.inr ⟨arg, List.mem_cons_self, rfl⟩
          · obtain hs | ⟨other, hother, hs⟩ := ih h
            · exact Or.inl hs
            · exact Or.inr ⟨other, List.mem_cons_of_mem arg hother, hs⟩

variable {arg : JsString}

theorem written_mem (exact : List JsString) {hidden : Bool} {args : List JsString}
    (h : arg ∈ unhidden credentialFlags hidden args) :
    (shapeOf credentialFlags arg).written exact credentialFlags arg ∈
      redactFrom exact credentialFlags hidden args := by
  induction args generalizing hidden with
  | nil => cases hidden <;> cases h
  | cons first args ih =>
      cases hidden with
      | true => exact List.mem_cons_of_mem _ (ih h)
      | false =>
          obtain rfl | h := List.mem_cons.mp h
          · exact List.mem_cons_self
          · exact List.mem_cons_of_mem _ (ih h)

theorem mem_of_lookup {α β : Type} [BEq α] [LawfulBEq α] {entries : List (α × β)} {key : α}
    {found : β} (h : entries.lookup key = some found) : (key, found) ∈ entries := by
  obtain ⟨front, back, rfl, _⟩ := List.lookup_eq_some_iff.mp h
  simp

/-- The flags of the table are short. -/
theorem length_credentialFlag {program : JsString} {subcommand : Option JsString} {flag : JsString}
    (h : flag ∈ credentialFlagsOf program subcommand) : flag.length < 15 := by
  have hshort : ∀ entry ∈ CREDENTIAL_FLAGS, ∀ listed ∈ entry.2, ∀ flag ∈ listed.2,
      flag.length < 15 := by
    decide
  rw [credentialFlagsOf] at h
  split at h
  · cases h
  · next flags hflags =>
    cases hkey : flags.lookup (if (flags.lookup []).isSome then [] else subcommand.getD []) with
    | none =>
        simp only [hkey] at h
        cases h
    | some listed =>
        simp only [hkey] at h
        exact hshort _ (mem_of_lookup hflags) _ (mem_of_lookup hkey) flag h

/-- The name is the start of what the branch writes. -/
theorem bareName_prefix {arg name : JsString} {shape : Shape} (h : shape.bareName arg = some name) :
    name <+: shape.written exact credentialFlags arg := by
  cases shape with
  | flag start =>
      rw [Shape.bareName] at h
      split at h
      · next hsecret =>
        cases h
        simp only [Shape.written, hsecret, Bool.true_or, if_true]
        exact List.prefix_append _ _
      · cases h
  | secretFlag =>
      cases h
      exact List.prefix_refl _
  | assignment start =>
      cases h
      exact List.prefix_append _ _
  | credentialFlag => cases h
  | attached start => cases h
  | commandLine => cases h
  | plain => cases h

theorem namedShape_ne (arg : JsString) :
    namedShape arg ≠ .credentialFlag ∧ ∀ start, namedShape arg ≠ .attached start := by
  rw [namedShape]
  split
  · simp
  · split
    · simp
    · split
      · simp
      · split <;> simp

theorem shapeOf_credentialFlag (h : shapeOf credentialFlags arg = .credentialFlag) :
    arg ∈ credentialFlags := by
  rw [shapeOf] at h
  split at h
  · next hmem => simpa using hmem
  · split at h
    · cases h
    · exact absurd h (namedShape_ne arg).1

theorem shapeOf_attached {arg start : JsString}
    (h : shapeOf credentialFlags arg = .attached start) : start = arg.take 2 := by
  rw [shapeOf] at h
  split at h
  · cases h
  · split at h
    · cases h
      rfl
    · exact absurd h ((namedShape_ne arg).2 start)

/-- Apart from its name, nothing of an argument can hold the value. -/
theorem avoids_written (h : Secret value) (hmem : value ∈ exact)
    (hshort : ∀ flag ∈ credentialFlags, flag.length < 15)
    (hbare : ∀ name, (shapeOf credentialFlags arg).bareName arg = some name → ¬ value <:+: name) :
    ¬ value <:+: (shapeOf credentialFlags arg).written exact credentialFlags arg := by
  have hequals : (lit "=").length = 1 := by decide
  cases hshape : shapeOf credentialFlags arg with
  | credentialFlag =>
      have hflag := hshort arg (shapeOf_credentialFlag hshape)
      exact h.not_infix_short (by rw [Shape.written]; omega)
  | attached start =>
      apply h.not_infix_append h.seals_redacted
      apply h.not_infix_short
      rw [shapeOf_attached hshape, List.length_take]
      omega
  | flag start =>
      rw [Shape.written]
      rw [hshape, Shape.bareName] at hbare
      split
      · next hwritten =>
        apply h.not_infix_append h.seals_redacted
        by_cases hsecret : SECRET_NAME.test start = true
        · rw [if_pos hsecret] at hbare
          exact hbare _ rfl
        · have hflag : credentialFlags.contains start = true := by
            simpa [hsecret] using hwritten
          have hlength := hshort start (by simpa using hflag)
          apply h.not_infix_short
          rw [List.length_append]
          omega
      · exact avoids_scrubArg h hmem arg
  | secretFlag =>
      rw [hshape] at hbare
      exact hbare arg rfl
  | assignment start =>
      rw [hshape] at hbare
      exact h.not_infix_append h.seals_redacted (hbare _ rfl)
  | commandLine => exact avoids_redactCommandLine h hmem arg
  | plain => exact avoids_scrubArg h hmem arg

theorem length_decimalString {n : Nat} (h : n < 2 ^ 32) :
    (JsNumber.decimalString n).length ≤ 10 := by
  rw [JsNumber.decimalString]
  split
  · decide
  · rw [List.length_map, List.length_reverse, Nat.digits_length_le_iff (by decide)]
    omega

/-- The count behind a list that was cut. -/
theorem avoids_more (h : Secret value) {n : Nat} (hn : n < 2 ^ 32) :
    ¬ value <:+: lit "[+" ++ JsNumber.decimalString n ++ lit " more]" := by
  have hlength := length_decimalString hn
  have hopen : (lit "[+").length = 2 := by decide
  have hclose : (lit " more]").length = 6 := by decide
  apply h.not_infix_short
  simp only [List.length_append, hopen, hclose]
  omega

/-- The exact values stay out of the trace just when no secret-looking name holds one. -/
theorem hides_iff (args exact : List JsString) (program : JsString) (hargs : args.length < 2 ^ 32) :
    (∀ value ∈ exact, Secret value →
        (∀ s ∈ redactArgv args exact program, ¬ value <:+: s) ∧
          ∀ command, ¬ value <:+: redactCommandLine command exact) ↔
      ∀ value ∈ exact, Secret value →
        ∀ arg ∈ unhidden (credentialFlagsOf program args.head?) false (args.take MAX_ARGS),
          ∀ name, (shapeOf (credentialFlagsOf program args.head?) arg).bareName arg = some name →
            ¬ value <:+: name := by
  constructor
  · intro h value hmem hsecret arg harg name hname hin
    have hwritten := written_mem exact harg
    apply (h value hmem hsecret).1 _ (List.mem_append_left _ hwritten)
    exact hin.trans ( bareName_prefix hname).isInfix
  · intro h value hmem hsecret
    constructor
    · intro s hs
      obtain hs | hs := List.mem_append.mp hs
      · obtain rfl | ⟨arg, harg, rfl⟩ := mem_redactFrom hs
        · exact hsecret.not_infix_short (by decide)
        · apply avoids_written hsecret hmem
          · intro flag hflag
            exact length_credentialFlag hflag
          · exact h value hmem hsecret arg harg
      · split at hs
        · rw [List.mem_singleton.mp hs]
          exact avoids_more hsecret (by omega)
        · cases hs
    · intro command
      exact avoids_redactCommandLine hsecret hmem command

/-- A secret behind the name of a flag, and one that is its value. -/
theorem hides_iff_value :
    (∀ value ∈ [lit "abcdefghijklmnopqrstu"], Secret value →
        (∀ s ∈ redactArgv [lit "--key=abcdefghijklmnopqrstu"] [lit "abcdefghijklmnopqrstu"] [],
          ¬ value <:+: s) ∧
          ∀ command, ¬ value <:+: redactCommandLine command [lit "abcdefghijklmnopqrstu"]) ↔
      ∀ value ∈ [lit "abcdefghijklmnopqrstu"], Secret value →
        ∀ arg ∈ unhidden (credentialFlagsOf [] (some (lit "--key=abcdefghijklmnopqrstu"))) false
          [lit "--key=abcdefghijklmnopqrstu"],
          ∀ name, (shapeOf (credentialFlagsOf [] (some (lit "--key=abcdefghijklmnopqrstu")))
            arg).bareName arg = some name → ¬ value <:+: name :=
  hides_iff [lit "--key=abcdefghijklmnopqrstu"] [lit "abcdefghijklmnopqrstu"] [] (by decide)

/-- A flag is named like a secret, by a name that holds one. -/
theorem shows_secretName :
    ∃ value, Secret value ∧
      ∃ s ∈ redactArgv [lit "--token-abcdefghijklmnopqrst=x"] [value] [], value <:+: s := by
  refine ⟨lit "token-abcdefghijklmnopqrst", .of_all (by decide) (by decide +kernel),
    lit "--token-abcdefghijklmnopqrst=[redacted]", ?_, ?_⟩
  · decide +kernel
  · exact ⟨lit "--", lit "=[redacted]", by decide +kernel⟩

end Stim.Trace
