import Mathlib.Data.List.Sort

/-!
# Pages of a list by a cursor

A page starts at the first item whose key is below the cursor, and its last item's key is the
cursor of the next.  Going from page to page gives the list itself where the keys descend; where
they do not, pages of one item miss an item that does not stand below the one before it.

The list is not changed between two pages.
-/

namespace CursorPages

variable {α κ : Type} [LinearOrder κ] (key : α → κ)

/-- Where the page after a cursor starts; `none` where no item is below it. -/
def start (list : List α) : Option κ → Option Nat
  | none => some 0
  | some cursor => list.findIdx? fun item => key item < cursor

/-- The page after a cursor, and the cursor of the next page. -/
def page (list : List α) (limit : Nat) (cursor : Option κ) : List α × Option κ :=
  match start key list cursor with
  | none => ([], none)
  | some first =>
      let items := (list.drop first).take limit
      (items, if first + limit < list.length then items.getLast?.map key else none)

/-- The pages from a cursor on, up to one that has no next. -/
inductive Paged (list : List α) (limit : Nat) : Option κ → List (List α) → Prop where
  | last {cursor : Option κ} (h : (page key list limit cursor).2 = none) :
      Paged list limit cursor [(page key list limit cursor).1]
  | next {cursor : Option κ} {following : κ} {pages : List (List α)}
      (h : (page key list limit cursor).2 = some following)
      (hrest : Paged list limit (some following) pages) :
      Paged list limit cursor ((page key list limit cursor).1 :: pages)

/-- Each item's key is above those of the items after it. -/
def Descending (list : List α) : Prop := list.Pairwise fun a b => key b < key a

variable {key} {list : List α} {limit : Nat}

variable {front rest : List α}

theorem page_of_start {cursor : Option κ}
    (hstart : start key (front ++ rest) cursor = some front.length) :
    page key (front ++ rest) limit cursor =
      (rest.take limit, if limit < rest.length then (rest.take limit).getLast?.map key else none) := by
  simp only [page, hstart, List.drop_left, List.length_append]
  congr 1
  by_cases hmore : limit < rest.length
  · rw [if_pos hmore, if_pos (by omega)]
  · rw [if_neg hmore, if_neg (by omega)]

/-- The page after `last` starts behind it, where nothing up to `last` is below it and the item
behind it is. -/
theorem start_of_below {last item : α} (hfront : ∀ a ∈ front, ¬ key a < key last)
    (hitem : key item < key last) :
    start key (front ++ item :: rest) (some (key last)) = some front.length := by
  simp only [start, List.findIdx?_append]
  have hnone : front.findIdx? (fun a => decide (key a < key last)) = none := by
    rw [List.findIdx?_eq_none_iff]
    intro a ha
    simpa using hfront a ha
  rw [hnone]
  simp [List.findIdx?_cons, hitem]

/-- A page that the list goes on behind: its last item, and the item behind it. -/
theorem exists_page {rest : List α} (hlimit : 0 < limit) (hmore : limit < rest.length) :
    ∃ items last item more, limit = (items ++ [last]).length ∧
      rest = items ++ [last] ++ item :: more := by
  obtain ⟨items, last, hitems⟩ : ∃ items last, rest.take limit = items ++ [last] := by
    rcases List.eq_nil_or_concat (rest.take limit) with hnil | ⟨items, last, hitems⟩
    · have := congrArg List.length hnil
      rw [List.length_take, List.length_nil] at this
      omega
    · exact ⟨items, last, by rw [hitems, List.concat_eq_append]⟩
  obtain ⟨item, more, hrest⟩ : ∃ item more, rest.drop limit = item :: more := by
    refine List.exists_cons_of_ne_nil fun hnil => ?_
    have := congrArg List.length hnil
    rw [List.length_drop, List.length_nil] at this
    omega
  refine ⟨items, last, item, more, ?_, ?_⟩
  · rw [← hitems, List.length_take]
    omega
  · rw [← hitems, ← hrest, List.take_append_drop]

/-- Where the keys descend, the pages are the list, in its order. -/
theorem paged_of_descending (hlimit : 0 < limit) (h : Descending key list) :
    ∃ pages, Paged key list limit none pages ∧ pages.flatten = list := by
  -- over what is left of the list, from a cursor that leads to it
  suffices hfrom : ∀ (n : Nat) (rest front : List α) (cursor : Option κ), rest.length ≤ n →
      list = front ++ rest → start key list cursor = some front.length →
      ∃ pages, Paged key list limit cursor pages ∧ pages.flatten = rest by
    exact hfrom list.length list [] none (Nat.le_refl _) rfl rfl
  intro n
  induction n with
  | zero =>
      intro rest front cursor hlength hlist hstart
      obtain rfl : rest = [] := List.length_eq_zero_iff.mp (by omega)
      subst hlist
      have hpage : page key (front ++ []) limit cursor = _ := page_of_start hstart
      refine ⟨[[]], ?_, rfl⟩
      have hlast : Paged key (front ++ []) limit cursor [_] := .last (by rw [hpage]; rfl)
      rwa [hpage, List.take_nil] at hlast
  | succ n ih =>
      intro rest front cursor hlength hlist hstart
      subst hlist
      have hpage : page key (front ++ rest) limit cursor = _ := page_of_start hstart
      by_cases hmore : limit < rest.length
      · obtain ⟨page', last, item, more, rfl, rfl⟩ : ∃ page' last item more,
            limit = (page' ++ [last]).length ∧ rest = page' ++ [last] ++ item :: more :=
          exists_page hlimit hmore
        have habove : ∀ a ∈ front ++ (page' ++ [last]), ¬ key a < key last := by
          intro a ha
          rw [← List.append_assoc] at ha
          rcases List.mem_append.mp ha with ha | ha
          · have hbefore := (List.pairwise_append.mp
              (show Descending key ((front ++ page') ++ ([last] ++ item :: more)) by
                simpa using h)).2.2 a ha last (by simp)
            exact hbefore.not_gt
          · rw [List.mem_singleton.mp ha]
            exact lt_irrefl _
        have hbelow : key item < key last := by
          have hboth : Descending key ((front ++ page') ++ (last :: item :: more)) := by
            simpa using h
          exact (List.pairwise_cons.mp (List.pairwise_append.mp hboth).2.1).1 item (by simp)
        have hfollowing : start key (front ++ (page' ++ [last] ++ item :: more)) (some (key last)) =
            some (front ++ (page' ++ [last])).length := by
          rw [← List.append_assoc]
          exact start_of_below habove hbelow
        obtain ⟨pages, hpages, hflat⟩ := ih (item :: more) (front ++ (page' ++ [last]))
          (some (key last)) (by simp at hlength ⊢; omega) (List.append_assoc _ _ _).symm hfollowing
        rw [List.take_left, if_pos hmore, List.getLast?_append] at hpage
        refine ⟨_, .next (by rw [hpage]; rfl) hpages, ?_⟩
        rw [hpage, List.flatten_cons, hflat]
      · have hlast : Paged key (front ++ rest) limit cursor [_] :=
          .last (by rw [hpage, if_neg hmore])
        refine ⟨_, hlast, ?_⟩
        rw [hpage, List.flatten_singleton, List.take_of_length_le (by omega)]

/-! ## Pages of one item -/

/-- A page of one item below the cursor, whose key is the next cursor if there is one. -/
theorem page_one (list : List α) (top : κ) :
    page key list 1 (some top) = ([], none) ∨
      ∃ item, key item < top ∧ (page key list 1 (some top)).1 = [item] ∧
        ∀ following, (page key list 1 (some top)).2 = some following → following = key item := by
  unfold page
  cases hstart : start key list (some top) with
  | none => exact .inl rfl
  | some first =>
      obtain ⟨hlt, hbelow, -⟩ := List.findIdx?_eq_some_iff_getElem.mp hstart
      have hone : (list.drop first).take 1 = [list[first]] := by
        rw [List.drop_eq_getElem_cons hlt]
        rfl
      refine .inr ⟨list[first], by simpa using hbelow, hone, fun following hfollowing => ?_⟩
      simp only [hone] at hfollowing
      split at hfollowing
      · exact (Option.some_inj.mp hfollowing).symm
      · cases hfollowing

variable {pages : List (List α)}

/-- Pages of one item go down: whatever they visit is below the cursor. -/
theorem below_of_paged_one {cursor : Option κ} (h : Paged key list 1 cursor pages) {top : κ}
    (htop : cursor = some top) : ∀ item ∈ pages.flatten, key item < top := by
  induction h generalizing top with
  | @last cursor hnone =>
      subst htop
      intro item hitem
      rw [List.flatten_singleton] at hitem
      rcases page_one list top with hpage | ⟨only, hbelow, hpage, -⟩
      · rw [hpage] at hitem
        exact absurd hitem List.not_mem_nil
      · rw [hpage, List.mem_singleton] at hitem
        exact hitem ▸ hbelow
  | @next cursor following pages hnext hrest ih =>
      subst htop
      rcases page_one list top with hpage | ⟨only, hbelow, hpage, hfollowing⟩
      · rw [hpage] at hnext
        cases hnext
      · intro item hitem
        rw [List.flatten_cons, hpage, List.singleton_append, List.mem_cons] at hitem
        rcases hitem with rfl | hitem
        · exact hbelow
        · exact (ih rfl item hitem).trans (hfollowing following hnext ▸ hbelow)

/-- Pages of one item behind `last` that hold the rest of the list go down the rest. -/
theorem descending_of_paged_last {last : α} (hlist : list = front ++ [last] ++ rest)
    (hrest : rest ≠ []) (habove : ∀ a ∈ front ++ [last], ¬ key a < key last)
    (h : Paged key list 1 (some (key last)) pages) (hperm : pages.flatten.Perm rest) :
    Descending key (last :: rest) ∧ pages.flatten = rest := by
  induction rest generalizing front last pages with
  | nil => exact absurd rfl hrest
  | cons item rest ih =>
      have hbelow : key item < key last :=
        below_of_paged_one h rfl item (hperm.mem_iff.mpr List.mem_cons_self)
      have hpage : page key list 1 (some (key last)) = _ :=
        hlist ▸ page_of_start (start_of_below habove hbelow)
      cases rest with
      | nil =>
          cases h with
          | last hnone =>
              rw [hpage]
              exact ⟨by simpa [Descending] using hbelow, rfl⟩
          | next hnext hlater =>
              rw [hpage] at hnext
              cases hnext
      | cons other rest =>
          have hmore : 1 < (item :: other :: rest).length := by simp
          rw [if_pos hmore] at hpage
          cases h with
          | last hnone =>
              rw [hpage] at hnone
              cases hnone
          | next hnext hlater =>
              rw [hpage] at hnext hperm ⊢
              cases hnext
              have hall : ∀ a ∈ front ++ [last] ++ [item], ¬ key a < key item := by
                intro a ha hlt
                rcases List.mem_append.mp ha with ha | ha
                · exact habove a ha (hlt.trans hbelow)
                · exact lt_irrefl _ (List.mem_singleton.mp ha ▸ hlt)
              obtain ⟨hdesc, hflat⟩ := ih (by rw [hlist]; simp) (by simp) hall hlater
                (List.perm_cons item |>.mp hperm)
              refine ⟨List.pairwise_cons.mpr ⟨fun a ha => ?_, hdesc⟩, ?_⟩
              · rcases List.mem_cons.mp ha with rfl | ha
                · exact hbelow
                · exact ((List.pairwise_cons.mp hdesc).1 a ha).trans hbelow
              · rw [List.flatten_cons, hflat]
                rfl

/-- Pages of one item that hold every item once go down the list. -/
theorem descending_of_paged_one (h : Paged key list 1 none pages)
    (hperm : pages.flatten.Perm list) : Descending key list ∧ pages.flatten = list := by
  cases list with
  | nil => exact ⟨List.Pairwise.nil, hperm.eq_nil⟩
  | cons first rest =>
      have hstart : start key ([] ++ first :: rest) none = some ([] : List α).length := rfl
      have hpage : page key ([] ++ first :: rest) 1 none = _ := page_of_start hstart
      rw [List.nil_append] at hpage
      cases rest with
      | nil =>
          cases h with
          | last hnone =>
              rw [hpage]
              exact ⟨List.pairwise_singleton _ _, rfl⟩
          | next hnext hlater =>
              rw [hpage] at hnext
              cases hnext
      | cons other rest =>
          have hmore : 1 < (first :: other :: rest).length := by simp
          rw [if_pos hmore] at hpage
          cases h with
          | last hnone =>
              rw [hpage] at hnone
              cases hnone
          | next hnext hlater =>
              rw [hpage] at hnext hperm ⊢
              cases hnext
              have hone : ∀ a ∈ [] ++ [first], ¬ key a < key first := by
                intro a ha
                rw [List.mem_singleton.mp ha]
                exact lt_irrefl _
              obtain ⟨hdesc, hflat⟩ := descending_of_paged_last rfl (by simp) hone hlater
                ((List.perm_cons first).mp hperm)
              refine ⟨hdesc, ?_⟩
              rw [List.flatten_cons, hflat]
              rfl

end CursorPages
