import Mathlib.Data.List.Basic

/-!
# The words of a shell command

Which words a POSIX shell reads from a command line of plain characters, quoted characters and
blanks.  A line with anything else in it (an expansion, an operator, double quotes) has no words
here: nothing is said about what a shell makes of it.
-/

namespace Stim.Shell

/-- A character that stands for itself outside quotes. -/
def isPlain (c : Char) : Bool := c.isAlphanum || c == '_' || c == '-'

/-- The words of the rest of a line: whether a quote is open, and the word that is being read. -/
def wordsFrom : Bool → Option (List Char) → List Char → Option (List (List Char))
  | true, _, [] => none
  | true, word, c :: rest =>
      if c = '\'' then wordsFrom false word rest
      else wordsFrom true (some (word.getD [] ++ [c])) rest
  | false, word, [] => some word.toList
  | false, word, '\\' :: c :: rest =>
      -- a backslash before a line's end joins the two lines
      if c = '\n' then wordsFrom false word rest
      else wordsFrom false (some (word.getD [] ++ [c])) rest
  | false, word, c :: rest =>
      if c = '\'' then wordsFrom true (some (word.getD [])) rest
      else if c = ' ' then (wordsFrom false none rest).map (word.toList ++ ·)
      else if isPlain c then wordsFrom false (some (word.getD [] ++ [c])) rest
      else none

def words (line : List Char) : Option (List (List Char)) := wordsFrom false none line

/-- Each quote ends the quoted text, stands escaped, and opens it again. -/
def escaped (text : List Char) : List Char :=
  text.flatMap fun c => if c = '\'' then ['\'', '\\', '\'', '\''] else [c]

def quote (text : List Char) : List Char := '\'' :: escaped text ++ ['\'']

/-- A text that is read as one word, wherever a word may begin. -/
def Reads (text word : List Char) : Prop :=
  ∀ rest, wordsFrom false none (text ++ rest) = wordsFrom false (some word) rest

theorem wordsFrom_escaped (text word rest : List Char) :
    wordsFrom true (some word) (escaped text ++ '\'' :: rest) =
      wordsFrom false (some (word ++ text)) rest := by
  induction text generalizing word with
  | nil => simp [escaped, wordsFrom]
  | cons c text ih =>
      have hcons : escaped (c :: text) =
          (if c = '\'' then ['\'', '\\', '\'', '\''] else [c]) ++ escaped text := rfl
      rw [hcons, List.append_assoc]
      by_cases hquote : c = '\''
      · subst hquote
        show wordsFrom true (some (word ++ ['\''])) (escaped text ++ '\'' :: rest) = _
        rw [ih, List.append_assoc, List.singleton_append]
      · rw [if_neg hquote, List.singleton_append, wordsFrom, if_neg hquote, Option.getD_some, ih,
          List.append_assoc, List.singleton_append]

theorem reads_quote (text : List Char) : Reads (quote text) text := by
  intro rest
  show wordsFrom true (some []) (escaped text ++ ['\''] ++ rest) = _
  rw [List.append_assoc, List.singleton_append, wordsFrom_escaped, List.nil_append]

theorem wordsFrom_plain {c : Char} (hplain : isPlain c = true) (word : Option (List Char))
    (rest : List Char) :
    wordsFrom false word (c :: rest) = wordsFrom false (some (word.getD [] ++ [c])) rest := by
  have hbackslash : c ≠ '\\' := by rintro rfl; exact absurd hplain (by decide)
  have hquote : c ≠ '\'' := by rintro rfl; exact absurd hplain (by decide)
  have hblank : c ≠ ' ' := by rintro rfl; exact absurd hplain (by decide)
  rw [wordsFrom, if_neg hquote, if_neg hblank, if_pos hplain]
  exact fun _ _ h _ => hbackslash h

theorem wordsFrom_plains {text : List Char} (hplain : ∀ c ∈ text, isPlain c = true)
    (word rest : List Char) :
    wordsFrom false (some word) (text ++ rest) = wordsFrom false (some (word ++ text)) rest := by
  induction text generalizing word with
  | nil => simp
  | cons c text ih =>
      rw [List.cons_append, wordsFrom_plain (hplain c (by simp)), Option.getD_some,
        ih (fun d hd => hplain d (by simp [hd])), List.append_assoc, List.singleton_append]

theorem reads_plain {text : List Char} (hne : text ≠ []) (hplain : ∀ c ∈ text, isPlain c = true) :
    Reads text text := by
  intro rest
  obtain ⟨c, text, rfl⟩ := List.exists_cons_of_ne_nil hne
  rw [List.cons_append, wordsFrom_plain (hplain c (by simp)), Option.getD_none, List.nil_append,
    wordsFrom_plains (fun d hd => hplain d (by simp [hd])), List.singleton_append]

/-- Texts that are read as words, with blanks between them, are read as these words. -/
theorem words_intercalate {texts words : List (List Char)} (h : List.Forall₂ Reads texts words) :
    Shell.words ([' '].intercalate texts) = some words := by
  induction h with
  | nil => rfl
  | @cons text word texts words hread htexts ih =>
      cases htexts with
      | nil =>
          have hone := hread []
          rw [List.append_nil] at hone
          rw [List.intercalate_singleton]
          exact hone
      | @cons next nextWord more moreWords hnext hmore =>
          have hjoin : [' '].intercalate (text :: next :: more) =
              text ++ ' ' :: [' '].intercalate (next :: more) := by
            rw [List.intercalate_cons_cons, List.append_assoc, List.singleton_append]
          have hrest : wordsFrom false none ([' '].intercalate (next :: more)) =
              some (nextWord :: moreWords) := ih
          rw [hjoin, Shell.words, hread, wordsFrom, if_neg (by decide), if_pos rfl, hrest]
          · rfl
          · exact fun _ _ hc => absurd hc (by decide)

end Stim.Shell
