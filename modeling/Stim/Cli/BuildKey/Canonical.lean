import Stim.Cli.BuildKey

/-!
# Canonical JSON is canonical

What a value means is an extensional tree: an object is a function from names to values.  The text
of a value is the printed form of the tree with its members in order and its undefined members
gone; a printed tree ends where it ends, so two texts are equal only where the trees are, and the
tree is the value's meaning.
-/

namespace Stim.BuildKey

/-! ## What a value means -/

/-- A value up to the order of members and the spelling of numbers. -/
inductive Meaning where
  | null
  | undefined
  | bool (b : Bool)
  | number (text : List Char)
  | string (s : JsString)
  | array (items : List Meaning)
  | object (member : JsString → Option Meaning)

section

variable {ν : Type} (numerals : Numerals ν)

mutual

def meaning : JsValue ν → Meaning
  | .null => .null
  | .undefined => .undefined
  | .bool b => .bool b
  | .number n => .number (numerals.text n)
  | .string s => .string s
  | .array items => .array (itemMeanings items)
  | .object members => .object (memberMeaning members)

def itemMeanings : List (JsValue ν) → List Meaning
  | [] => []
  | item :: items => meaning item :: itemMeanings items

/-- The member of a name; an undefined one is none. -/
def memberMeaning : List (JsString × JsValue ν) → JsString → Option Meaning
  | [], _ => none
  | (_, .undefined) :: members, key => memberMeaning members key
  | (name, item) :: members, key =>
      if key = name then some (meaning item) else memberMeaning members key

end

/-- A value that JSON can represent: the numbers are finite, the members have names of their own,
and only members are undefined. -/
inductive IsJson : JsValue ν → Prop where
  | null : IsJson .null
  | bool (b : Bool) : IsJson (.bool b)
  | number (n : ν) (h : numerals.isFinite n = true) : IsJson (.number n)
  | string (s : JsString) : IsJson (.string s)
  | array (items : List (JsValue ν)) (h : ∀ item ∈ items, IsJson item) : IsJson (.array items)
  | object (members : List (JsString × JsValue ν)) (hnames : (members.map Prod.fst).Nodup)
      (h : ∀ member ∈ members, member.2 ≠ .undefined → IsJson member.2) : IsJson (.object members)

end

/-! ## Trees and their printed form -/

/-- A value with its numbers written. -/
inductive Tree where
  | null
  | bool (b : Bool)
  | number (text : List Char)
  | string (s : JsString)
  | array (items : List Tree)
  | object (members : List (JsString × Tree))

mutual

def Tree.print : Tree → List Char
  | .null => "null".toList
  | .bool b => if b then "true".toList else "false".toList
  | .number text => text
  | .string s => JsString.quote s
  | .array items => '[' :: [','].intercalate (printItems items) ++ [']']
  | .object members => '\x7b' :: [','].intercalate (printMembers members) ++ ['\x7d']

def printItems : List Tree → List (List Char)
  | [] => []
  | item :: items => item.print :: printItems items

def printMembers : List (JsString × Tree) → List (List Char)
  | [] => []
  | (key, item) :: members => (JsString.quote key ++ ':' :: item.print) :: printMembers members

end

def printMember (member : JsString × Tree) : List Char :=
  JsString.quote member.1 ++ ':' :: member.2.print

theorem printItems_eq (items : List Tree) : printItems items = items.map Tree.print := by
  induction items with
  | nil => rfl
  | cons item items ih => rw [printItems, ih, List.map_cons]

theorem printMembers_eq (members : List (JsString × Tree)) :
    printMembers members = members.map printMember := by
  induction members with
  | nil => rfl
  | cons member members ih =>
      rw [printMembers, ih, List.map_cons]
      rfl

theorem print_array_append (items : List Tree) (r : List Char) :
    (Tree.array items).print ++ r =
      '[' :: ([','].intercalate (items.map Tree.print) ++ ']' :: r) := by
  simp only [Tree.print, printItems_eq, List.cons_append, List.append_assoc, List.nil_append]

theorem print_object_append (members : List (JsString × Tree)) (r : List Char) :
    (Tree.object members).print ++ r =
      '\x7b' :: ([','].intercalate (members.map printMember) ++ '\x7d' :: r) := by
  simp only [Tree.print, printMembers_eq, List.cons_append, List.append_assoc, List.nil_append]

def isNumeral (c : Char) : Bool := c.isDigit || ['-', '+', '.', 'e'].contains c

/-- A tree whose numbers are written with numerals and whose members are in the order of their
names, each name once. -/
inductive Tree.Legal : Tree → Prop where
  | null : Legal .null
  | bool (b : Bool) : Legal (.bool b)
  | number (text : List Char) (hne : text ≠ []) (h : ∀ c ∈ text, isNumeral c = true) :
      Legal (.number text)
  | string (s : JsString) : Legal (.string s)
  | array (items : List Tree) (h : ∀ item ∈ items, Legal item) : Legal (.array items)
  | object (members : List (JsString × Tree))
      (hsorted : members.Pairwise fun a b => a.1.units < b.1.units)
      (h : ∀ member ∈ members, Legal member.2) : Legal (.object members)

/-! ## A printed tree ends where it ends -/

/-- What may follow a printed tree: no numeral goes on. -/
def Ends (rest : List Char) : Prop := ∀ c ∈ rest.head?, isNumeral c = false

section Joined

variable {α : Type} {pr : α → List Char} {xs ys : List α}

/-- What is printed of `x` shows which item it is, whatever follows. -/
def Shows (pr : α → List Char) (ys : List α) (x : α) : Prop :=
  ∀ y ∈ ys, ∀ r u, Ends r → Ends u → pr x ++ r = pr y ++ u → x = y ∧ r = u

variable {close : Char}

theorem ends_rest (hends : isNumeral close = false) (zs : List α) (s : List Char) :
    Ends (zs.flatMap (fun z => ',' :: pr z) ++ close :: s) := by
  intro c hc
  cases zs with
  | nil =>
      obtain rfl := Option.some_inj.mp hc
      exact hends
  | cons z zs =>
      obtain rfl := Option.some_inj.mp hc
      decide

theorem joined_rest_inj (hclose : close ≠ ',') (hends : isNumeral close = false)
    (hshows : ∀ x ∈ xs, Shows pr ys x) {r u : List Char}
    (h : xs.flatMap (fun x => ',' :: pr x) ++ close :: r =
      ys.flatMap (fun y => ',' :: pr y) ++ close :: u) : xs = ys ∧ r = u := by
  induction xs generalizing ys with
  | nil =>
      cases ys with
      | nil => exact ⟨rfl, (List.cons.inj h).2⟩
      | cons y ys => exact absurd (List.cons.inj h).1 hclose
  | cons x xs ih =>
      cases ys with
      | nil => exact absurd (List.cons.inj h).1.symm hclose
      | cons y ys =>
          rw [List.flatMap_cons, List.flatMap_cons, List.append_assoc, List.append_assoc,
            List.cons_append, List.cons_append] at h
          obtain ⟨rfl, hrest⟩ := hshows x List.mem_cons_self y List.mem_cons_self _ _
            (ends_rest hends xs r) (ends_rest hends ys u) (List.cons.inj h).2
          obtain ⟨rfl, rfl⟩ := ih
            (fun z hz w hw => hshows z (List.mem_cons_of_mem _ hz) w (List.mem_cons_of_mem _ hw))
            hrest
          exact ⟨rfl, rfl⟩

theorem intercalate_eq (x : List Char) (xs : List (List Char)) :
    [','].intercalate (x :: xs) = x ++ xs.flatMap (',' :: ·) := by
  induction xs generalizing x with
  | nil => simp
  | cons y xs ih =>
      rw [List.intercalate_cons_cons, ih, List.flatMap_cons, List.append_assoc]
      rfl

/-- Items between commas, up to the closing bracket. -/
theorem joined_inj (hclose : close ≠ ',') (hends : isNumeral close = false)
    (hshows : ∀ x ∈ xs, Shows pr ys x) (hxs : ∀ x ∈ xs, ∃ c rest, pr x = c :: rest ∧ c ≠ close)
    (hys : ∀ y ∈ ys, ∃ c rest, pr y = c :: rest ∧ c ≠ close) {r u : List Char}
    (h : [','].intercalate (xs.map pr) ++ close :: r = [','].intercalate (ys.map pr) ++ close :: u) :
    xs = ys ∧ r = u := by
  cases xs with
  | nil =>
      cases ys with
      | nil => exact ⟨rfl, (List.cons.inj h).2⟩
      | cons y ys =>
          obtain ⟨c, rest, hprint, hne⟩ := hys y List.mem_cons_self
          rw [List.map_cons, intercalate_eq, hprint] at h
          exact absurd (List.cons.inj h).1.symm hne
  | cons x xs =>
      cases ys with
      | nil =>
          obtain ⟨c, rest, hprint, hne⟩ := hxs x List.mem_cons_self
          rw [List.map_cons, intercalate_eq, hprint] at h
          exact absurd (List.cons.inj h).1 hne
      | cons y ys =>
          rw [List.map_cons, List.map_cons, intercalate_eq, intercalate_eq, List.flatMap_map,
            List.flatMap_map, List.append_assoc, List.append_assoc] at h
          obtain ⟨rfl, hrest⟩ := hshows x List.mem_cons_self y List.mem_cons_self _ _
            (ends_rest hends xs r) (ends_rest hends ys u) h
          obtain ⟨rfl, rfl⟩ := joined_rest_inj hclose hends
            (fun z hz w hw => hshows z (List.mem_cons_of_mem _ hz) w (List.mem_cons_of_mem _ hw))
            hrest
          exact ⟨rfl, rfl⟩

end Joined

/-- Numerals end where something else begins. -/
theorem numerals_inj {text other r u : List Char} (htext : ∀ c ∈ text, isNumeral c = true)
    (hother : ∀ c ∈ other, isNumeral c = true) (hr : Ends r) (hu : Ends u)
    (h : text ++ r = other ++ u) : text = other ∧ r = u := by
  induction text generalizing other with
  | nil =>
      cases other with
      | nil => exact ⟨rfl, h⟩
      | cons c other =>
          have hc : isNumeral c = false := hr c (by rw [← List.nil_append r, h]; rfl)
          rw [hother c List.mem_cons_self] at hc
          cases hc
  | cons c text ih =>
      cases other with
      | nil =>
          have hc : isNumeral c = false := hu c (by rw [← List.nil_append u, ← h]; rfl)
          rw [htext c List.mem_cons_self] at hc
          cases hc
      | cons d other =>
          obtain ⟨rfl, hrest⟩ := List.cons.inj h
          obtain ⟨rfl, rfl⟩ := ih (fun e he => htext e (List.mem_cons_of_mem _ he))
            (fun e he => hother e (List.mem_cons_of_mem _ he)) hrest
          exact ⟨rfl, rfl⟩

/-- The kind of a tree, which the first character of its text shows. -/
def Tree.sort : Tree → Nat
  | .null => 0
  | .bool _ => 1
  | .number _ => 2
  | .string _ => 3
  | .array _ => 4
  | .object _ => 5

def sortOf (c : Char) : Nat :=
  if c = 'n' then 0 else if c = 't' ∨ c = 'f' then 1 else if c = '"' then 3
  else if c = '[' then 4 else if c = '\x7b' then 5 else 2

theorem sortOf_numeral {c : Char} (h : isNumeral c = true) :
    sortOf c = 2 ∧ c ≠ ']' ∧ c ≠ '\x7d' := by
  have hne : ∀ d : Char, isNumeral d = false → c ≠ d := by
    rintro d hd rfl
    rw [hd] at h
    cases h
  refine ⟨?_, hne _ (by decide), hne _ (by decide)⟩
  unfold sortOf
  rw [if_neg (hne _ (by decide)), if_neg (not_or.mpr ⟨hne _ (by decide), hne _ (by decide)⟩),
    if_neg (hne _ (by decide)), if_neg (hne _ (by decide)), if_neg (hne _ (by decide))]

theorem print_cons {tree : Tree} (h : tree.Legal) :
    ∃ c rest, tree.print = c :: rest ∧ sortOf c = tree.sort ∧ c ≠ ']' ∧ c ≠ '\x7d' := by
  cases h with
  | null => exact ⟨'n', _, rfl, by decide, by decide, by decide⟩
  | bool b => cases b with
    | false => exact ⟨'f', _, rfl, by decide, by decide, by decide⟩
    | true => exact ⟨'t', _, rfl, by decide, by decide, by decide⟩
  | number text hne hlegal =>
      obtain ⟨c, rest, rfl⟩ := List.exists_cons_of_ne_nil hne
      exact ⟨c, rest, rfl, sortOf_numeral (hlegal c List.mem_cons_self)⟩
  | string s => exact ⟨'"', _, rfl, rfl, by decide, by decide⟩
  | array items => exact ⟨'[', _, rfl, rfl, by decide, by decide⟩
  | object members => exact ⟨'\x7b', _, rfl, rfl, by decide, by decide⟩

/-- Induction over a tree, with the hypothesis for each item and each member. -/
theorem Tree.induct {P : Tree → Prop} (null : P .null) (bool : ∀ b, P (.bool b))
    (number : ∀ text, P (.number text)) (string : ∀ s, P (.string s))
    (array : ∀ items, (∀ item ∈ items, P item) → P (.array items))
    (object : ∀ members, (∀ member ∈ members, P member.2) → P (.object members)) :
    ∀ tree, P tree
  | .null => null
  | .bool b => bool b
  | .number text => number text
  | .string s => string s
  | .array items => array items fun item _ => Tree.induct null bool number string array object item
  | .object members => object members fun member _ =>
      Tree.induct null bool number string array object member.2
termination_by tree => sizeOf tree
decreasing_by
  · have := List.sizeOf_lt_of_mem ‹item ∈ items›
    simp only [Tree.array.sizeOf_spec]
    omega
  · have := List.sizeOf_lt_of_mem ‹member ∈ members›
    obtain ⟨name, item⟩ := member
    simp only [Tree.object.sizeOf_spec, Prod.mk.sizeOf_spec] at *
    omega

theorem sort_eq {tree other : Tree} (htree : tree.Legal) (hother : other.Legal) {r u : List Char}
    (h : tree.print ++ r = other.print ++ u) : tree.sort = other.sort := by
  obtain ⟨c, rest, hprint, hsort, -⟩ := print_cons htree
  obtain ⟨d, more, hprint', hsort', -⟩ := print_cons hother
  rw [hprint, hprint'] at h
  rw [← hsort, ← hsort', (List.cons.inj h).1]

/-- A printed tree shows which tree it is, whatever follows. -/
theorem print_append_inj {tree : Tree} : ∀ {other : Tree}, tree.Legal → other.Legal →
    ∀ {r u : List Char}, Ends r → Ends u → tree.print ++ r = other.print ++ u →
      tree = other ∧ r = u := by
  induction tree using Tree.induct with
  | null =>
      intro other htree hother r u hr hu h
      have hsort := sort_eq htree hother h
      cases other with
      | null => exact ⟨rfl, List.append_cancel_left h⟩
      | _ => simp [Tree.sort] at hsort
  | bool b =>
      intro other htree hother r u hr hu h
      have hsort := sort_eq htree hother h
      cases other with
      | bool c =>
          cases b <;> cases c
          · exact ⟨rfl, List.append_cancel_left h⟩
          · exact absurd (List.cons.inj h).1 (by decide)
          · exact absurd (List.cons.inj h).1 (by decide)
          · exact ⟨rfl, List.append_cancel_left h⟩
      | _ => simp [Tree.sort] at hsort
  | number text =>
      intro other htree hother r u hr hu h
      have hsort := sort_eq htree hother h
      cases htree with
      | number text hne hlegal =>
          cases hother with
          | number text' hne' hlegal' =>
              obtain ⟨rfl, rfl⟩ := numerals_inj hlegal hlegal' hr hu h
              exact ⟨rfl, rfl⟩
          | _ => simp [Tree.sort] at hsort
  | string s =>
      intro other htree hother r u hr hu h
      have hsort := sort_eq htree hother h
      cases other with
      | string s' =>
          obtain ⟨rfl, rfl⟩ := JsString.quote_append_inj h
          exact ⟨rfl, rfl⟩
      | _ => simp [Tree.sort] at hsort
  | array items ih =>
      intro other htree hother r u hr hu h
      have hsort := sort_eq htree hother h
      cases htree with
      | array items hlegal =>
          cases hother with
          | array items' hlegal' =>
              rw [print_array_append, print_array_append] at h
              obtain ⟨rfl, rfl⟩ := joined_inj (by decide) (by decide)
                (fun item hitem item' hitem' _ _ hr hu h =>
                  ih item hitem (hlegal item hitem) (hlegal' item' hitem') hr hu h)
                (fun item hitem => by
                  obtain ⟨c, rest, hprint, -, hne, -⟩ := print_cons (hlegal item hitem)
                  exact ⟨c, rest, hprint, hne⟩)
                (fun item hitem => by
                  obtain ⟨c, rest, hprint, -, hne, -⟩ := print_cons (hlegal' item hitem)
                  exact ⟨c, rest, hprint, hne⟩) (List.cons.inj h).2
              exact ⟨rfl, rfl⟩
          | _ => simp [Tree.sort] at hsort
  | object members ih =>
      intro other htree hother r u hr hu h
      have hsort := sort_eq htree hother h
      cases htree with
      | object members hsorted hlegal =>
          cases hother with
          | object members' hsorted' hlegal' =>
              rw [print_object_append, print_object_append] at h
              have hshows : ∀ member ∈ members, Shows printMember members' member := by
                intro member hmember member' hmember' r u hr hu h
                rw [printMember, printMember, List.append_assoc, List.append_assoc] at h
                obtain ⟨hname, hvalue⟩ := JsString.quote_append_inj h
                obtain ⟨htree, hrest⟩ := ih member hmember (hlegal member hmember)
                  (hlegal' member' hmember') hr hu (List.cons.inj hvalue).2
                exact ⟨Prod.ext hname htree, hrest⟩
              obtain ⟨rfl, rfl⟩ := joined_inj (by decide) (by decide) hshows
                (fun _ _ => ⟨'"', _, rfl, by decide⟩) (fun _ _ => ⟨'"', _, rfl, by decide⟩)
                (List.cons.inj h).2
              exact ⟨rfl, rfl⟩
          | _ => simp [Tree.sort] at hsort

theorem print_inj {tree other : Tree} (htree : tree.Legal) (hother : other.Legal)
    (h : tree.print = other.print) : tree = other := by
  have hends : Ends [] := fun c hc => by cases hc
  exact (print_append_inj htree hother hends hends (congrArg (· ++ []) h)).1

/-! ## The tree of a value -/

section

variable {ν : Type} (numerals : Numerals ν)

mutual

/-- A value with its numbers written and its members sorted; an undefined one is a member only. -/
def tree : JsValue ν → Tree
  | .null => .null
  | .undefined => .null
  | .bool b => .bool b
  | .number n => .number (numerals.text n)
  | .string s => .string s
  | .array items => .array (treeItems items)
  | .object members => .object ((treeMembers members).insertionSort fun a b => byCodeUnit a.1 b.1)

def treeItems : List (JsValue ν) → List Tree
  | [] => []
  | item :: items => tree item :: treeItems items

def treeMembers : List (JsString × JsValue ν) → List (JsString × Tree)
  | [] => []
  | (_, .undefined) :: members => treeMembers members
  | (key, item) :: members => (key, tree item) :: treeMembers members

end

/-- Induction over a value, with the hypothesis for each item and each member. -/
theorem JsValue.induct {P : JsValue ν → Prop} (null : P .null) (undefined : P .undefined)
    (bool : ∀ b, P (.bool b)) (number : ∀ n, P (.number n)) (string : ∀ s, P (.string s))
    (array : ∀ items, (∀ item ∈ items, P item) → P (.array items))
    (object : ∀ members, (∀ member ∈ members, P member.2) → P (.object members)) :
    ∀ value, P value
  | .null => null
  | .undefined => undefined
  | .bool b => bool b
  | .number n => number n
  | .string s => string s
  | .array items => array items fun item _ =>
      JsValue.induct null undefined bool number string array object item
  | .object members => object members fun member _ =>
      JsValue.induct null undefined bool number string array object member.2
termination_by value => sizeOf value
decreasing_by
  · have := List.sizeOf_lt_of_mem ‹item ∈ items›
    simp only [JsValue.array.sizeOf_spec]
    omega
  · have := List.sizeOf_lt_of_mem ‹member ∈ members›
    obtain ⟨name, item⟩ := member
    simp only [JsValue.object.sizeOf_spec, Prod.mk.sizeOf_spec] at *
    omega

variable {numerals} {key : JsString} {item : JsValue ν} {members : List (JsString × JsValue ν)}

theorem canonicalEntries_cons (h : item ≠ .undefined) :
    canonicalEntries numerals ((key, item) :: members) =
      (canonicalJson numerals item).bind fun text =>
        (canonicalEntries numerals members).map fun entries => (key, text) :: entries := by
  cases item with
  | undefined => exact absurd rfl h
  | _ => rfl

theorem treeMembers_cons (h : item ≠ .undefined) :
    treeMembers numerals ((key, item) :: members) =
      (key, tree numerals item) :: treeMembers numerals members := by
  cases item with
  | undefined => exact absurd rfl h
  | _ => rfl

theorem memberMeaning_cons (h : item ≠ .undefined) (name : JsString) :
    memberMeaning numerals ((key, item) :: members) name =
      if name = key then some (meaning numerals item)
      else memberMeaning numerals members name := by
  cases item with
  | undefined => exact absurd rfl h
  | _ => rfl

theorem treeItems_eq (items : List (JsValue ν)) :
    treeItems numerals items = items.map (tree numerals) := by
  induction items with
  | nil => rfl
  | cons item items ih => rw [treeItems, ih, List.map_cons]

theorem itemMeanings_eq (items : List (JsValue ν)) :
    itemMeanings numerals items = items.map (meaning numerals) := by
  induction items with
  | nil => rfl
  | cons item items ih => rw [itemMeanings, ih, List.map_cons]

theorem canonicalItems_eq {items : List (JsValue ν)}
    (h : ∀ item ∈ items, canonicalJson numerals item = .ok (tree numerals item).print) :
    canonicalItems numerals items = .ok ((treeItems numerals items).map Tree.print) := by
  induction items with
  | nil => rfl
  | cons item items ih =>
      rw [canonicalItems, h item List.mem_cons_self,
        ih fun other hother => h other (List.mem_cons_of_mem _ hother)]
      rfl

theorem canonicalEntries_eq
    (h : ∀ member ∈ members, member.2 ≠ .undefined →
      canonicalJson numerals member.2 = .ok (tree numerals member.2).print) :
    canonicalEntries numerals members =
      .ok ((treeMembers numerals members).map fun member => (member.1, member.2.print)) := by
  induction members with
  | nil => rfl
  | cons member members ih =>
      obtain ⟨key, item⟩ := member
      have hrest := ih fun other hother => h other (List.mem_cons_of_mem _ hother)
      by_cases hitem : item = .undefined
      · subst hitem
        exact hrest
      · rw [canonicalEntries_cons hitem, treeMembers_cons hitem,
          h (key, item) List.mem_cons_self hitem, hrest]
        rfl

/-- The text of a value is its printed tree. -/
theorem canonicalJson_eq {value : JsValue ν} (h : IsJson numerals value) :
    canonicalJson numerals value = .ok (tree numerals value).print := by
  induction value using JsValue.induct with
  | null => rfl
  | undefined => cases h
  | bool b => cases b <;> rfl
  | number n =>
      cases h with
      | number n hfinite =>
          rw [canonicalJson, if_pos hfinite]
          rfl
  | string s => rfl
  | array items ih =>
      cases h with
      | array items hitems =>
          rw [canonicalJson, canonicalItems_eq fun item hitem => ih item hitem (hitems item hitem),
            tree, Tree.print, printItems_eq]
          rfl
  | object members ih =>
      cases h with
      | object members hnames hmembers =>
          have hsort := List.map_insertionSort (fun a b : JsString × Tree => byCodeUnit a.1 b.1)
            (fun a b : JsString × List Char => byCodeUnit a.1 b.1)
            (fun member : JsString × Tree => (member.1, member.2.print))
            (treeMembers numerals members) (fun _ _ _ _ => Iff.rfl)
          rw [canonicalJson, canonicalEntries_eq fun member hmember hdefined =>
            ih member hmember (hmembers member hmember hdefined), tree, Tree.print, printMembers_eq]
          show Except.ok _ = _
          rw [← hsort, List.map_map]
          rfl

/-! ## The tree is legal -/

theorem mem_treeMembers {name : JsString} {found : Tree}
    (h : (name, found) ∈ treeMembers numerals members) :
    ∃ item, (name, item) ∈ members ∧ item ≠ .undefined ∧ tree numerals item = found := by
  induction members with
  | nil => cases h
  | cons member members ih =>
      obtain ⟨key, item⟩ := member
      have hlater : (name, found) ∈ treeMembers numerals members →
          ∃ item', (name, item') ∈ (key, item) :: members ∧ item' ≠ .undefined ∧
            tree numerals item' = found := by
        intro hmem
        obtain ⟨item', hmem', hrest⟩ := ih hmem
        exact ⟨item', List.mem_cons_of_mem _ hmem', hrest⟩
      by_cases hitem : item = .undefined
      · subst hitem
        exact hlater h
      · rw [treeMembers_cons hitem, List.mem_cons] at h
        rcases h with heq | hmem
        · cases heq
          exact ⟨item, List.mem_cons_self, hitem, rfl⟩
        · exact hlater hmem

theorem keys_treeMembers_sublist (members : List (JsString × JsValue ν)) :
    ((treeMembers numerals members).map Prod.fst).Sublist (members.map Prod.fst) := by
  induction members with
  | nil => exact List.Sublist.refl _
  | cons member members ih =>
      obtain ⟨key, item⟩ := member
      by_cases hitem : item = .undefined
      · subst hitem
        exact ih.cons key
      · rw [treeMembers_cons hitem]
        exact ih.cons_cons key

theorem byCodeUnit_total (a b : JsString) : byCodeUnit a b ∨ byCodeUnit b a :=
  le_total a.units b.units

theorem byCodeUnit_trans {a b c : JsString} (hab : byCodeUnit a b) (hbc : byCodeUnit b c) :
    byCodeUnit a c :=
  le_trans (α := List Nat) hab hbc

/-- Rows of different names, sorted by name, are in strict order. -/
theorem strict_sorted {α : Type} {name : α → JsString} {rows : List α} (h : (rows.map name).Nodup) :
    (rows.insertionSort fun a b => byCodeUnit (name a) (name b)).Pairwise
      fun a b => (name a).units < (name b).units := by
  have : Std.Total fun a b : α => byCodeUnit (name a) (name b) :=
    ⟨fun a b => byCodeUnit_total (name a) (name b)⟩
  have : IsTrans α fun a b => byCodeUnit (name a) (name b) := ⟨fun _ _ _ => byCodeUnit_trans⟩
  have hperm := List.perm_insertionSort (fun a b => byCodeUnit (name a) (name b)) rows
  have hdistinct : (rows.insertionSort fun a b => byCodeUnit (name a) (name b)).Pairwise
      fun a b => name a ≠ name b :=
    List.pairwise_map.mp ((hperm.map name).nodup_iff.mpr h)
  refine (List.pairwise_insertionSort (fun a b => byCodeUnit (name a) (name b)) rows).imp₂ ?_
    hdistinct
  intro a b hle hne
  exact lt_of_le_of_ne hle fun heq => hne (JsString.units_injective heq)

theorem legal_tree {value : JsValue ν} (h : IsJson numerals value) :
    (tree numerals value).Legal := by
  induction value using JsValue.induct with
  | null => exact .null
  | undefined => cases h
  | bool b => exact .bool b
  | number n =>
      cases h with
      | number n hfinite =>
          refine .number _ (numerals.nonempty n hfinite) fun c hc => ?_
          rw [isNumeral, Bool.or_eq_true, List.contains_iff_mem]
          exact numerals.legal n hfinite c hc
  | string s => exact .string s
  | array items ih =>
      cases h with
      | array items hitems =>
          refine .array _ fun found hfound => ?_
          rw [treeItems_eq] at hfound
          obtain ⟨item, hitem, rfl⟩ := List.mem_map.mp hfound
          exact ih item hitem (hitems item hitem)
  | object members ih =>
      cases h with
      | object members hnames hmembers =>
          refine .object _ (strict_sorted ((keys_treeMembers_sublist members).nodup hnames)) ?_
          rintro ⟨name, found⟩ hfound
          obtain ⟨item, hitem, hdefined, rfl⟩ :=
            mem_treeMembers ((List.mem_insertionSort _).mp hfound)
          exact ih (name, item) hitem (hmembers (name, item) hitem hdefined)

end

/-! ## The tree is the meaning -/

mutual

def Tree.meaning : Tree → Meaning
  | .null => .null
  | .bool b => .bool b
  | .number text => .number text
  | .string s => .string s
  | .array items => .array (treeItemMeanings items)
  | .object members => .object (treeMemberMeaning members)

def treeItemMeanings : List Tree → List Meaning
  | [] => []
  | item :: items => item.meaning :: treeItemMeanings items

def treeMemberMeaning : List (JsString × Tree) → JsString → Option Meaning
  | [], _ => none
  | (name, item) :: members, key =>
      if key = name then some item.meaning else treeMemberMeaning members key

end

theorem treeItemMeanings_eq (items : List Tree) :
    treeItemMeanings items = items.map Tree.meaning := by
  induction items with
  | nil => rfl
  | cons item items ih => rw [treeItemMeanings, ih, List.map_cons]

theorem treeMemberMeaning_eq_some_iff {members : List (JsString × Tree)} {key : JsString}
    {found : Meaning} (h : (members.map Prod.fst).Nodup) :
    treeMemberMeaning members key = some found ↔
      ∃ item, (key, item) ∈ members ∧ item.meaning = found := by
  induction members with
  | nil => simp [treeMemberMeaning]
  | cons member members ih =>
      obtain ⟨name, item⟩ := member
      obtain ⟨hname, hrest⟩ := List.nodup_cons.mp h
      rw [treeMemberMeaning]
      by_cases hkey : key = name
      · subst hkey
        rw [if_pos rfl]
        constructor
        · rintro ⟨⟩
          exact ⟨item, List.mem_cons_self, rfl⟩
        · rintro ⟨other, hmem, rfl⟩
          rcases List.mem_cons.mp hmem with heq | hmem
          · cases heq
            rfl
          · exact absurd (List.mem_map_of_mem hmem) hname
      · rw [if_neg hkey, ih hrest]
        refine exists_congr fun other => and_congr_left fun _ => ?_
        simp [hkey]

/-- The order of the members does not matter to what an object means. -/
theorem treeMemberMeaning_perm {members others : List (JsString × Tree)}
    (hperm : members.Perm others) (h : (members.map Prod.fst).Nodup) :
    treeMemberMeaning members = treeMemberMeaning others := by
  funext key
  refine Option.ext fun found => ?_
  rw [treeMemberMeaning_eq_some_iff h,
    treeMemberMeaning_eq_some_iff ((hperm.map Prod.fst).nodup_iff.mp h)]
  exact exists_congr fun item => and_congr_left fun _ => hperm.mem_iff

theorem treeMemberMeaning_eq_none {members : List (JsString × Tree)} {key : JsString}
    (h : ∀ member ∈ members, member.1 ≠ key) : treeMemberMeaning members key = none := by
  induction members with
  | nil => rfl
  | cons member members ih =>
      rw [treeMemberMeaning, if_neg (h member List.mem_cons_self).symm,
        ih fun other hother => h other (List.mem_cons_of_mem _ hother)]

theorem treeMemberMeaning_self {name : JsString} {item : Tree} {members : List (JsString × Tree)} :
    treeMemberMeaning ((name, item) :: members) name = some item.meaning := by
  rw [treeMemberMeaning, if_pos rfl]

/-- Members in strict order that mean the same function are the same. -/
theorem members_eq_of_meaning {members others : List (JsString × Tree)}
    (hsorted : members.Pairwise fun a b => a.1.units < b.1.units)
    (hsorted' : others.Pairwise fun a b => a.1.units < b.1.units)
    (hitems : ∀ member ∈ members, ∀ other ∈ others,
      member.2.meaning = other.2.meaning → member.2 = other.2)
    (h : treeMemberMeaning members = treeMemberMeaning others) : members = others := by
  induction members generalizing others with
  | nil =>
      cases others with
      | nil => rfl
      | cons other others =>
          have hnone := congrFun h other.1
          rw [treeMemberMeaning_self] at hnone
          cases hnone
  | cons member members ih =>
      cases others with
      | nil =>
          have hnone := congrFun h member.1
          rw [treeMemberMeaning_self] at hnone
          cases hnone
      | cons other others =>
          obtain ⟨name, item⟩ := member
          obtain ⟨name', item'⟩ := other
          obtain ⟨hfirst, hrest⟩ := List.pairwise_cons.mp hsorted
          obtain ⟨hfirst', hrest'⟩ := List.pairwise_cons.mp hsorted'
          -- a name below all others is a member of one list only
          have hbelow : ∀ {name : JsString} {item : Tree} {first : JsString × Tree}
              {rest : List (JsString × Tree)} {members : List (JsString × Tree)},
              treeMemberMeaning ((name, item) :: members) = treeMemberMeaning (first :: rest) →
              (∀ member ∈ rest, first.1.units < member.1.units) →
              ¬ name.units < first.1.units := by
            intro name item first rest members heq hrest hlt
            have hname := congrFun heq name
            rw [treeMemberMeaning_self, treeMemberMeaning_eq_none] at hname
            · cases hname
            · rintro member hmember rfl
              rcases List.mem_cons.mp hmember with rfl | hmember
              · exact lt_irrefl _ hlt
              · exact lt_irrefl _ (hlt.trans (hrest member hmember))
          have hname : name = name' := JsString.units_injective
            (le_antisymm (not_lt.mp (hbelow h.symm hfirst)) (not_lt.mp (hbelow h hfirst')))
          subst hname
          have hitem : item = item' := by
            have hself := congrFun h name
            rw [treeMemberMeaning_self, treeMemberMeaning_self] at hself
            exact hitems _ List.mem_cons_self _ List.mem_cons_self (Option.some.inj hself)
          subst hitem
          refine congrArg _ (ih hrest hrest' (fun member hmember other hother =>
            hitems member (List.mem_cons_of_mem _ hmember) other (List.mem_cons_of_mem _ hother)) ?_)
          funext key
          by_cases hkey : key = name
          · subst hkey
            have habsent : ∀ {rest : List (JsString × Tree)},
                (∀ member ∈ rest, key.units < member.1.units) →
                treeMemberMeaning rest key = none := by
              intro rest hrest
              refine treeMemberMeaning_eq_none fun member hmember heq => ?_
              exact lt_irrefl _ (heq ▸ hrest member hmember)
            rw [habsent hfirst, habsent hfirst']
          · have hlater := congrFun h key
            rwa [treeMemberMeaning, treeMemberMeaning, if_neg hkey, if_neg hkey] at hlater

theorem eq_of_map_eq {α β : Type} {f : α → β} {xs ys : List α}
    (hinj : ∀ x ∈ xs, ∀ y ∈ ys, f x = f y → x = y) (h : xs.map f = ys.map f) : xs = ys := by
  induction xs generalizing ys with
  | nil => exact (List.map_eq_nil_iff.mp h.symm).symm
  | cons x xs ih =>
      cases ys with
      | nil => cases h
      | cons y ys =>
          obtain ⟨hhead, htail⟩ := List.cons.inj h
          rw [hinj x List.mem_cons_self y List.mem_cons_self hhead,
            ih (fun z hz w hw => hinj z (List.mem_cons_of_mem _ hz) w (List.mem_cons_of_mem _ hw))
              htail]

/-- Legal trees that mean the same are the same. -/
theorem meaning_inj {tree : Tree} : ∀ {other : Tree}, tree.Legal → other.Legal →
    tree.meaning = other.meaning → tree = other := by
  induction tree using Tree.induct with
  | null =>
      intro other _ _ h
      cases other with
      | null => rfl
      | _ => simp [Tree.meaning] at h
  | bool b =>
      intro other _ _ h
      cases other with
      | bool c => simpa [Tree.meaning] using h
      | _ => simp [Tree.meaning] at h
  | number text =>
      intro other _ _ h
      cases other with
      | number text' => simpa [Tree.meaning] using h
      | _ => simp [Tree.meaning] at h
  | string s =>
      intro other _ _ h
      cases other with
      | string s' => simpa [Tree.meaning] using h
      | _ => simp [Tree.meaning] at h
  | array items ih =>
      intro other htree hother h
      cases htree with
      | array items hitems =>
          cases hother with
          | array items' hitems' =>
              rw [Tree.meaning, Tree.meaning, treeItemMeanings_eq, treeItemMeanings_eq,
                Meaning.array.injEq] at h
              exact congrArg Tree.array (eq_of_map_eq (fun item hitem item' hitem' =>
                ih item hitem (hitems item hitem) (hitems' item' hitem')) h)
          | _ => simp [Tree.meaning] at h
  | object members ih =>
      intro other htree hother h
      cases htree with
      | object members hsorted hlegal =>
          cases hother with
          | object members' hsorted' hlegal' =>
              rw [Tree.meaning, Tree.meaning, Meaning.object.injEq] at h
              exact congrArg Tree.object (members_eq_of_meaning hsorted hsorted'
                (fun member hmember other hother =>
                  ih member hmember (hlegal member hmember) (hlegal' other hother)) h)
          | _ => simp [Tree.meaning] at h

section

variable {ν : Type} {numerals : Numerals ν} {members : List (JsString × JsValue ν)}

theorem memberMeaning_eq
    (h : ∀ member ∈ members, member.2 ≠ .undefined →
      meaning numerals member.2 = (tree numerals member.2).meaning) :
    memberMeaning numerals members = treeMemberMeaning (treeMembers numerals members) := by
  funext key
  induction members with
  | nil => rfl
  | cons member members ih =>
      obtain ⟨name, item⟩ := member
      have hrest := ih fun other hother => h other (List.mem_cons_of_mem _ hother)
      by_cases hitem : item = .undefined
      · subst hitem
        exact hrest
      · rw [memberMeaning_cons hitem, treeMembers_cons hitem, treeMemberMeaning, hrest,
          h (name, item) List.mem_cons_self hitem]

theorem meaning_tree {value : JsValue ν} (h : IsJson numerals value) :
    meaning numerals value = (tree numerals value).meaning := by
  induction value using JsValue.induct with
  | null => rfl
  | undefined => cases h
  | bool b => rfl
  | number n => rfl
  | string s => rfl
  | array items ih =>
      cases h with
      | array items hitems =>
          rw [meaning, itemMeanings_eq, tree, treeItems_eq, Tree.meaning, treeItemMeanings_eq,
            List.map_map]
          exact congrArg Meaning.array
            (List.map_congr_left fun item hitem => ih item hitem (hitems item hitem))
  | object members ih =>
      cases h with
      | object members hnames hmembers =>
          rw [meaning, tree, Tree.meaning, memberMeaning_eq fun member hmember hdefined =>
            ih member hmember (hmembers member hmember hdefined)]
          exact congrArg Meaning.object (treeMemberMeaning_perm
            (List.perm_insertionSort _ _).symm ((keys_treeMembers_sublist members).nodup hnames))

/-- Two values have the same text exactly if they mean the same. -/
theorem canonicalJson_eq_iff {a b : JsValue ν} (ha : IsJson numerals a) (hb : IsJson numerals b) :
    ∃ s t, canonicalJson numerals a = .ok s ∧ canonicalJson numerals b = .ok t ∧
      (s = t ↔ meaning numerals a = meaning numerals b) := by
  refine ⟨_, _, canonicalJson_eq ha, canonicalJson_eq hb, ?_⟩
  rw [meaning_tree ha, meaning_tree hb]
  constructor
  · exact fun h => congrArg Tree.meaning (print_inj (legal_tree ha) (legal_tree hb) h)
  · exact fun h => congrArg Tree.print (meaning_inj (legal_tree ha) (legal_tree hb) h)

end

end Stim.BuildKey
