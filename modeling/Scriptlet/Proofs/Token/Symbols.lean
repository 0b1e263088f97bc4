import Scriptlet.Token.Symbol

/-!
# Trees of symbols

A tree spells a text if a path along the text ends in a whole symbol (`SymbolTree.Spells`). The tree
of a list of symbols spells just these, in whatever order and however often they are listed
(`spells_ofList`).

A walk along a text comes to the longest text at its front that the tree spells, or to nothing if it
spells none but the empty one (`walk_cases`). So the longest symbol is found, and a text is found to
be a symbol exactly if it is one (`longestMatch?_ofList`).
-/

namespace Scriptlet.SymbolTree

open Text

variable {t : SymbolTree} {c : Char} {s r rest text : List Char}

/-- The tree behind a text. -/
def descend? (t : SymbolTree) : List Char → Option SymbolTree
  | [] => some t
  | c :: cs => (t.branch? c).bind fun u => u.descend? cs

/-- A text is a whole symbol of a tree. -/
def Spells (t : SymbolTree) (s : List Char) : Prop := ∃ u, t.descend? s = some u ∧ u.terminal = true

theorem spells_nil : t.Spells [] ↔ t.terminal = true := by
  simp [Spells, descend?]

theorem spells_cons : t.Spells (c :: s) ↔ ∃ u, t.branch? c = some u ∧ u.Spells s := by
  simp only [Spells, descend?, Option.bind_eq_some_iff]
  constructor
  · rintro ⟨v, ⟨u, hu, hv⟩, hterminal⟩
    exact ⟨u, hu, v, hv, hterminal⟩
  · rintro ⟨u, hu, v, hv, hterminal⟩
    exact ⟨v, ⟨u, hu, hv⟩, hterminal⟩

theorem descend?_append (t : SymbolTree) (s r : List Char) :
    t.descend? (s ++ r) = (t.descend? s).bind (·.descend? r) := by
  induction s generalizing t with
  | nil => rfl
  | cons c s ih =>
    rw [List.cons_append, descend?, descend?, Option.bind_assoc]
    exact congrArg _ (funext ih)

/-! ## Adding symbols -/

theorem lookup_updateBranch (f : SymbolTree → SymbolTree) (bs : List (Char × SymbolTree)) (d : Char) :
    (updateBranch c f bs).lookup d =
      if d = c then some (f ((bs.lookup c).getD empty)) else bs.lookup d := by
  induction bs with
  | nil => grind [updateBranch]
  | cons b bs ih =>
    obtain ⟨b, u⟩ := b
    grind [updateBranch]

theorem not_spells_empty (s : List Char) : ¬empty.Spells s := by
  cases s with
  | nil => simp [spells_nil, empty, terminal]
  | cons c s => simp [spells_cons, empty, branch?, branches]

/-- A symbol is added, and no other. -/
theorem spells_insert : (t.insert s).Spells r ↔ r = s ∨ t.Spells r := by
  induction s generalizing t r with
  | nil =>
    obtain ⟨terminal, bs⟩ := t
    cases r <;> simp [insert, spells_nil, spells_cons, SymbolTree.terminal, branch?, branches]
  | cons c s ih =>
    obtain ⟨terminal, bs⟩ := t
    cases r with
    | nil => simp [insert, spells_nil, SymbolTree.terminal]
    | cons d r =>
      simp only [insert, spells_cons, branch?, branches, lookup_updateBranch, List.cons.injEq]
      by_cases hd : d = c
      · subst hd
        cases hlookup : bs.lookup d with
        | none => simp [ih, not_spells_empty]
        | some u => simp [ih]
      · simp [hd]

theorem spells_ofList {symbols : List (List Char)} : (ofList symbols).Spells s ↔ s ∈ symbols := by
  -- on top of any symbols that are there before
  have hfold : ∀ (symbols : List (List Char)) (t : SymbolTree),
      (symbols.foldl (fun t s => t.insert s) t).Spells s ↔ s ∈ symbols ∨ t.Spells s := by
    intro symbols
    induction symbols with
    | nil => simp
    | cons r symbols ih =>
      intro t
      rw [List.foldl_cons, ih, spells_insert, List.mem_cons, or_assoc, or_left_comm]
  exact (hfold symbols empty).trans (or_iff_left (not_spells_empty s))

/-! ## Walks -/

/-- The longest text at the front of another one that a tree spells, and that is not empty. -/
structure IsLongest (t : SymbolTree) (text s : List Char) : Prop where
  nonempty : s ≠ []
  front : s <+: text
  spelled : t.Spells s
  longest : ∀ r, r <+: text → t.Spells r → r <+: s

/-- A symbol at the front of a text is empty, or it goes on along the branch of the first
    character. -/
theorem cases_front (hs : s <+: c :: text) (h : t.Spells s) :
    s = [] ∨ ∃ r, s = c :: r ∧ r <+: text ∧ ∃ u, t.branch? c = some u ∧ u.Spells r := by
  cases s with
  | nil => exact .inl rfl
  | cons d s =>
    obtain ⟨rfl, hrest⟩ := List.cons_prefix_cons.1 hs
    exact .inr ⟨s, rfl, hrest, spells_cons.1 h⟩

/-- A walk passes the longest text at the front that the tree spells, if there is one. -/
theorem walk_cases (t : SymbolTree) (n : Nat) (best : Option Nat) (text : List Char) :
    (∃ s, t.IsLongest text s ∧ t.walk n best text = some (n + byteSize s)) ∨
      (∀ s, s <+: text → t.Spells s → s = []) ∧ t.walk n best text = best := by
  induction text generalizing t n best with
  | nil => exact .inr ⟨fun s hs _ => List.prefix_nil.1 hs, rfl⟩
  | cons c cs ih =>
    rw [walk]
    cases hu : t.branch? c with
    | none =>
      refine .inr ⟨fun s hs hspells => ?_, rfl⟩
      obtain rfl | ⟨_, rfl, -, _, hu', -⟩ := cases_front hs hspells
      · rfl
      · cases hu.symm.trans hu'
    | some u =>
      dsimp only
      rcases ih u (n + c.utf8Size) (if u.terminal then some (n + c.utf8Size) else best) with
        ⟨s, hs, heq⟩ | ⟨hnone, heq⟩
      · have hlongest : t.IsLongest (c :: cs) (c :: s) := by
          refine ⟨nofun, List.cons_prefix_cons.2 ⟨rfl, hs.front⟩,
            spells_cons.2 ⟨u, hu, hs.spelled⟩, fun r hr hspells => ?_⟩
          obtain rfl | ⟨r, rfl, hr, _, hu', hspells⟩ := cases_front hr hspells
          · exact List.nil_prefix
          · cases hu.symm.trans hu'
            exact List.cons_prefix_cons.2 ⟨rfl, hs.longest r hr hspells⟩
        exact .inl ⟨c :: s, hlongest, by rw [heq, byteSize_cons, Nat.add_assoc]⟩
      · -- at most the first character is spelled
        have hfront : ∀ r, r <+: c :: cs → t.Spells r → r = [] ∨ r = [c] ∧ u.terminal = true := by
          intro r hr hspells
          obtain rfl | ⟨r, rfl, hr, _, hu', hspells⟩ := cases_front hr hspells
          · exact .inl rfl
          · cases hu.symm.trans hu'
            obtain rfl := hnone r hr hspells
            exact .inr ⟨rfl, spells_nil.1 hspells⟩
        rw [heq]
        by_cases hterminal : u.terminal = true
        · refine .inl ⟨[c], ⟨nofun, List.cons_prefix_cons.2 ⟨rfl, List.nil_prefix⟩,
            spells_cons.2 ⟨u, hu, spells_nil.2 hterminal⟩, fun r hr hspells => ?_⟩, if_pos hterminal⟩
          obtain rfl | ⟨rfl, -⟩ := hfront r hr hspells
          · exact List.nil_prefix
          · exact List.prefix_rfl
        · refine .inr ⟨fun r hr hspells => ?_, if_neg hterminal⟩
          exact (hfront r hr hspells).resolve_right fun h => hterminal h.2

theorem IsLongest.longestMatch? (h : t.IsLongest text s) :
    t.longestMatch? text = some (byteSize s) := by
  rcases t.walk_cases 0 none text with ⟨r, hr, heq⟩ | ⟨hnone, -⟩
  · have hlength := (h.longest r hr.front hr.spelled).length_le
    obtain rfl := (hr.longest s h.front h.spelled).eq_of_length_le hlength
    rw [SymbolTree.longestMatch?, heq, Nat.zero_add]
  · exact absurd (hnone s h.front h.spelled) h.nonempty

theorem exists_of_longestMatch? {n : Nat} (h : t.longestMatch? text = some n) :
    ∃ s, t.IsLongest text s ∧ n = byteSize s := by
  rcases t.walk_cases 0 none text with ⟨s, hs, -⟩ | ⟨-, heq⟩
  · exact ⟨s, hs, Option.some.inj (h.symm.trans hs.longestMatch?)⟩
  · cases h.symm.trans heq

theorem longestMatch?_eq_none_iff :
    t.longestMatch? text = none ↔ ∀ s, s <+: text → t.Spells s → s = [] := by
  rcases t.walk_cases 0 none text with ⟨s, hs, -⟩ | ⟨hnone, heq⟩
  · rw [hs.longestMatch?]
    exact ⟨nofun, fun hnone => absurd (hnone s hs.front hs.spelled) hs.nonempty⟩
  · exact iff_of_true heq hnone

theorem byteSize_le_of_prefix (h : r <+: s) : byteSize r ≤ byteSize s := by
  obtain ⟨q, rfl⟩ := h
  exact byteSize_append r q ▸ Nat.le_add_right _ _

/-- A text with all the bytes of another one at whose front it stands is that one. -/
theorem eq_of_prefix_of_byteSize (h : r <+: s) (hsize : byteSize r = byteSize s) : r = s := by
  obtain ⟨q, rfl⟩ := h
  have hq := length_le_byteSize q
  rw [byteSize_append] at hsize
  rw [List.eq_nil_of_length_eq_zero (by omega : q.length = 0), List.append_nil]

/-- The tree of some symbols finds how many bytes the longest of them at the front of a text has,
    and nothing exactly if there is none but the empty one. A text is found to be a symbol if it is
    one of them and not empty. -/
theorem longestMatch?_ofList (symbols : List (List Char)) (text : List Char) :
    (∀ n, (ofList symbols).longestMatch? text = some n ↔
      (∃ s ∈ symbols, s ≠ [] ∧ s <+: text ∧ byteSize s = n) ∧
        ∀ s ∈ symbols, s <+: text → byteSize s ≤ n) ∧
    ((ofList symbols).longestMatch? text = none ↔ ∀ s ∈ symbols, s <+: text → s = []) ∧
    ((ofList symbols).contains text = true ↔ text ≠ [] ∧ text ∈ symbols) := by
  have hnone : (ofList symbols).longestMatch? text = none ↔ ∀ s ∈ symbols, s <+: text → s = [] := by
    simp only [longestMatch?_eq_none_iff, spells_ofList]
    exact forall_congr' fun s => forall_comm
  refine ⟨fun n => ⟨fun h => ?_, ?_⟩, hnone, ?_⟩
  · obtain ⟨s, hs, rfl⟩ := exists_of_longestMatch? h
    exact ⟨⟨s, spells_ofList.1 hs.spelled, hs.nonempty, hs.front, rfl⟩, fun r hr hfront =>
      byteSize_le_of_prefix (hs.longest r hfront (spells_ofList.2 hr))⟩
  · rintro ⟨⟨s, hs, hne, hfront, rfl⟩, hgreatest⟩
    cases hmatch : (ofList symbols).longestMatch? text with
    | none => exact absurd (hnone.1 hmatch s hs hfront) hne
    | some m =>
      obtain ⟨r, hr, rfl⟩ := exists_of_longestMatch? hmatch
      have hle := hgreatest r (spells_ofList.1 hr.spelled) hr.front
      have hge := byteSize_le_of_prefix (hr.longest s hfront (spells_ofList.2 hs))
      rw [Nat.le_antisymm hle hge]
  · rw [contains, beq_iff_eq]
    constructor
    · intro h
      obtain ⟨s, hs, hsize⟩ := exists_of_longestMatch? h
      obtain rfl := eq_of_prefix_of_byteSize hs.front hsize.symm
      exact ⟨hs.nonempty, spells_ofList.1 hs.spelled⟩
    · rintro ⟨hne, hmem⟩
      exact IsLongest.longestMatch? ⟨hne, List.prefix_rfl, spells_ofList.2 hmem, fun r hr _ => hr⟩

end Scriptlet.SymbolTree
