import Mathlib.Data.Finset.Card
import Mathlib.Data.Set.Finite.Basic
import Mathlib.Order.Bounds.Basic
import Scriptlet.Catalog.Directory

/-!
# The hierarchy of types

A type derives from another if a chain of steps, each from a type to a parent of it, leads there
(`Directory.Chain`). The search for supertypes goes breadth first: the types that have been looked
at and those in the queue are all types seen so far, in the order of their hops, and none in the
queue is more than one hop behind the first (`Directory.Search`).

Each step of the search keeps this (`Search.step`), so it holds in the end, when the queue is empty
(`search_of_reach`). Then every type is listed with the length of a shortest chain
(`Search.isLeast`). If a type derives from finitely many others, the search does come to an end
(`exists_reach`), since every step is done with one more of them.
-/

namespace Scriptlet.Directory

variable {d : Directory} {s t : Ty} {k hops : Nat} {seen done queue found : List (Ty × Nat)}
  {ts : List Ty}

/-- A chain of `k` steps leads from `s` to a type that it derives from. -/
inductive Chain (d : Directory) (s : Ty) : (k : Nat) → Ty → Prop
  | start : Chain d s 0 s
  | step {k : Nat} {t p : Ty} : Chain d s k t → p ∈ d.parents t → Chain d s (k + 1) p

/-! ## Definitions -/

theorem mem_of_lookup? {c : Catalog} {name : String} {arity : Nat} {x : Definition}
    (h : c.lookup? name arity = some x) : x ∈ c.definitions := List.mem_of_find?_eq_some h

theorem mem_of_definition? {x : Definition × Ty.Bindings} (h : d.definition? t = some x) :
    x.1 ∈ d.catalog.definitions := by
  unfold definition? at h
  obtain ⟨name, -, h⟩ := Option.bind_eq_some_iff.1 h
  obtain ⟨y, hy, rfl⟩ := Option.map_eq_some_iff.1 h
  unfold Catalog.find? at hy
  split at hy
  · rename_i hlookup
    cases hy
    exact mem_of_lookup? hlookup
  · obtain ⟨space, -, hspace⟩ := List.exists_of_findSome?_eq_some hy
    obtain ⟨rest, -, hlookup⟩ := Option.bind_eq_some_iff.1 hspace
    exact mem_of_lookup? hlookup

/-- The ways to be a parent of a type. -/
theorem mem_parents {p : Ty} (h : p ∈ d.parents t) :
    p = .object ∨
      (∃ e r, t = .array e r ∧ (p = .named "Array" [] ∨ p = .named "IEnumerable" [e])) ∨
      ∃ x b, d.definition? t = some (x, b) ∧ ∃ q ∈ x.base.toList ++ x.interfaces, p = q.substitute b := by
  unfold parents at h
  split at h
  iterate 4 cases h
  · rcases List.mem_cons.1 h with rfl | h
    · exact .inr (.inl ⟨_, _, rfl, .inl rfl⟩)
    · split at h
      · exact .inr (.inl ⟨_, _, rfl, .inr (List.mem_singleton.1 h)⟩)
      · cases h
  · exact .inl (List.mem_singleton.1 h)
  · split at h
    · exact .inl (List.mem_singleton.1 h)
    · rename_i x b hx
      split at h
      · exact .inl (List.mem_singleton.1 h)
      · obtain ⟨q, hq, rfl⟩ := List.mem_map.1 h
        exact .inr (.inr ⟨x, b, hx, q, hq, rfl⟩)

/-! ## Types that are new -/

theorem mem_of_mem_fresh {e : Ty × Nat} (h : e ∈ fresh seen hops ts) : e.1 ∈ ts ∧ e.2 = hops := by
  induction ts generalizing seen with
  | nil => cases h
  | cons t ts ih =>
    rw [fresh] at h
    split at h
    · exact (ih h).imp_left (List.mem_cons_of_mem _)
    · rcases List.mem_cons.1 h with rfl | h
      · exact ⟨List.mem_cons_self, rfl⟩
      · exact (ih h).imp_left (List.mem_cons_of_mem _)

theorem nodup_fresh (h : (seen.map (·.1)).Nodup) :
    ((seen ++ fresh seen hops ts).map (·.1)).Nodup := by
  induction ts generalizing seen with
  | nil => simpa [fresh] using h
  | cons t ts ih =>
    rw [fresh]
    split
    · exact ih h
    · rename_i hnew
      rw [List.append_cons]
      refine ih ?_
      simp only [List.any_eq_true, beq_iff_eq, not_exists, not_and] at hnew
      simpa [List.nodup_append, h] using fun e n he => hnew (e, n) he

theorem covered_fresh (seen : List (Ty × Nat)) (hops : Nat) (h : t ∈ ts) :
    ∃ n, (t, n) ∈ seen ++ fresh seen hops ts := by
  induction ts generalizing seen with
  | nil => cases h
  | cons u ts ih =>
    rw [fresh]
    split
    · rename_i hseen
      rcases List.mem_cons.1 h with rfl | h
      · obtain ⟨e, he, heq⟩ := List.any_eq_true.1 hseen
        exact ⟨e.2, List.mem_append_left _ (eq_of_beq heq ▸ he)⟩
      · exact ih seen h
    · rw [List.append_cons]
      rcases List.mem_cons.1 h with rfl | h
      · exact ⟨hops, by simp⟩
      · exact ih _ h

/-! ## The search -/

/-- How far a search from `s` has come: the types in `done` have been looked at, those in `queue`
    are to be looked at. -/
structure Search (d : Directory) (s : Ty) (done queue : List (Ty × Nat)) : Prop where
  start : (s, 0) ∈ done ++ queue
  nodup : ((done ++ queue).map (·.1)).Nodup
  sorted : (done ++ queue).Pairwise (·.2 ≤ ·.2)
  chain : ∀ e ∈ done ++ queue, d.Chain s e.2 e.1
  /-- Nothing seen is further away than one hop from what is looked at next. -/
  near : ∀ e ∈ queue.head?, ∀ f ∈ done ++ queue, f.2 ≤ e.2 + 1
  /-- The parents of what has been looked at have been seen. -/
  closed : ∀ e ∈ done, ∀ p ∈ d.parents e.1, ∃ n ≤ e.2 + 1, (p, n) ∈ done ++ queue

namespace Search

theorem init (d : Directory) (s : Ty) : d.Search s [] [(s, 0)] where
  start := by simp
  nodup := by simp
  sorted := by simp
  chain := by simpa using Chain.start
  near := by simp
  closed := by simp

/-- A step looks at the first type in the queue, and puts its new parents at the end. -/
theorem step (h : d.Search s done ((t, k) :: queue)) {new : List (Ty × Nat)}
    (hnew : new = fresh (done ++ (t, k) :: queue) (k + 1) (d.parents t)) :
    d.Search s (done ++ [(t, k)]) (queue ++ new) := by
  have hseen : done ++ [(t, k)] ++ (queue ++ new) = done ++ (t, k) :: queue ++ new := by simp
  have hparents : ∀ e ∈ new, e.1 ∈ d.parents t ∧ e.2 = k + 1 :=
    fun e he => mem_of_mem_fresh (hnew ▸ he)
  have hnear : ∀ f ∈ done ++ (t, k) :: queue, f.2 ≤ k + 1 := h.near (t, k) rfl
  have hall : ∀ f ∈ done ++ (t, k) :: queue ++ new, f.2 ≤ k + 1 := by
    intro f hf
    rcases List.mem_append.1 hf with hf | hf
    · exact hnear f hf
    · exact (hparents f hf).2.le
  refine ⟨hseen ▸ List.mem_append_left _ h.start, ?_, ?_, ?_, ?_, ?_⟩
  · rw [hseen, hnew]
    exact nodup_fresh h.nodup
  · rw [hseen]
    refine List.pairwise_append.2 ⟨h.sorted, ?_, fun e he f hf => ?_⟩
    · exact List.pairwise_of_forall_mem_list fun e he f hf =>
        ((hparents e he).2.trans (hparents f hf).2.symm).le
    · exact (hnear e he).trans (hparents f hf).2.ge
  · rw [hseen]
    intro e he
    rcases List.mem_append.1 he with he | he
    · exact h.chain e he
    · rw [(hparents e he).2]
      exact (h.chain (t, k) (by simp)).step (hparents e he).1
  · -- What is next is not nearer than the type that was looked at.
    rw [hseen]
    intro e he f hf
    have hle : k ≤ e.2 := by
      rcases List.mem_append.1 (List.mem_of_mem_head? he) with he | he
      · have hsorted := (List.pairwise_append.1 h.sorted).2.1
        exact (List.pairwise_cons.1 hsorted).1 e he
      · exact (Nat.le_succ k).trans (hparents e he).2.ge
    exact (hall f hf).trans (Nat.succ_le_succ hle)
  · rw [hseen]
    intro e he p hp
    rcases List.mem_append.1 he with he | he
    · obtain ⟨n, hn, hmem⟩ := h.closed e he p hp
      exact ⟨n, hn, List.mem_append_left _ hmem⟩
    · obtain rfl := List.mem_singleton.1 he
      obtain ⟨n, hmem⟩ := covered_fresh (done ++ (t, k) :: queue) (k + 1) hp
      rw [← hnew] at hmem
      exact ⟨n, hall _ hmem, hmem⟩

/-- At the end, a type stands with a number exactly if that is the length of a shortest chain. -/
theorem isLeast (h : d.Search s found []) : (t, k) ∈ found ↔ IsLeast {n | d.Chain s n t} k := by
  obtain ⟨hstart, hnodup, -, hchain, -, hclosed⟩ := h
  simp only [List.append_nil] at hstart hnodup hchain hclosed
  have hreached {n : Nat} {u : Ty} (hu : d.Chain s n u) : ∃ m ≤ n, (u, m) ∈ found := by
    induction hu with
    | start => exact ⟨0, le_rfl, hstart⟩
    | step _ hp ih =>
      obtain ⟨m, hm, hmem⟩ := ih
      obtain ⟨m', hm', hmem'⟩ := hclosed _ hmem _ hp
      exact ⟨m', hm'.trans (Nat.succ_le_succ hm), hmem'⟩
  constructor
  · intro hmem
    refine ⟨hchain _ hmem, fun n hn => ?_⟩
    obtain ⟨m, hm, hmem'⟩ := hreached hn
    obtain rfl : k = m := (Prod.mk.inj (List.inj_on_of_nodup_map hnodup hmem hmem' rfl)).2
    exact hm
  · rintro ⟨hk, hleast⟩
    obtain ⟨m, hm, hmem⟩ := hreached hk
    obtain rfl : m = k := le_antisymm hm (hleast (hchain _ hmem))
    exact hmem

end Search

/-! ## The end of the search -/

theorem search_of_reach (h : d.Search s done queue)
    (hreach : d.reach (done ++ queue) queue = some found) : d.Search s found [] := by
  suffices ∀ seen queue found, d.reach seen queue = some found →
      ∀ done, seen = done ++ queue → d.Search s done queue → d.Search s found [] from
    this _ _ _ hreach done rfl h
  refine reach.partial_correctness d _ fun reach ih seen queue found hreach done hseen h => ?_
  subst hseen
  split at hreach
  · obtain rfl := Option.some.inj hreach
    simpa using h
  · exact ih _ _ _ hreach (done ++ [_]) (by simp) (h.step rfl)

theorem Search.length_le {all : Finset Ty} (h : d.Search s done queue)
    (hall : ∀ n t, d.Chain s n t → t ∈ all) : (done ++ queue).length ≤ all.card := by
  rw [← List.length_map, ← List.toFinset_card_of_nodup h.nodup]
  refine Finset.card_le_card fun t ht => ?_
  obtain ⟨e, he, rfl⟩ := List.mem_map.1 (List.mem_toFinset.1 ht)
  exact hall _ _ (h.chain e he)

/-- The search comes to an end, since it is done with one more type in every step. -/
theorem exists_reach (all : Finset Ty) (hall : ∀ n t, d.Chain s n t → t ∈ all)
    (h : d.Search s done queue) : ∃ found, d.reach (done ++ queue) queue = some found := by
  induction hn : all.card - done.length generalizing done queue with
  | zero =>
    cases queue with
    | nil => exact ⟨_, reach.eq_1 ..⟩
    | cons e queue =>
      have hlength := h.length_le hall
      simp only [List.length_append, List.length_cons] at hlength
      omega
  | succ n ih =>
    cases queue with
    | nil => exact ⟨_, reach.eq_1 ..⟩
    | cons e queue =>
      have hdone : all.card - (done ++ [e]).length = n := by
        rw [List.length_append, List.length_singleton]
        omega
      obtain ⟨found, hfound⟩ := ih (h.step rfl) hdone
      refine ⟨found, ?_⟩
      rw [reach]
      simpa using hfound

theorem prefix_of_reach (h : d.reach seen queue = some found) : seen <+: found := by
  refine reach.partial_correctness d (fun seen _ found => seen <+: found) ?_ _ _ _ h
  intro reach ih seen queue found hreach
  split at hreach
  · exact Option.some.inj hreach ▸ List.prefix_rfl
  · exact (List.prefix_append _ _).trans (ih _ _ _ hreach)

/-- A type is the first of its supertypes. -/
theorem exists_supertypes (d : Directory) (s : Ty) : ∃ rest, d.supertypes s = (s, 0) :: rest := by
  unfold supertypes
  cases hreach : d.reach [(s, 0)] [(s, 0)] with
  | none => exact ⟨[], rfl⟩
  | some found =>
    obtain ⟨rest, rfl⟩ := prefix_of_reach hreach
    exact ⟨rest, rfl⟩

/-- What is found derives from the type, also where the hierarchy has no end. -/
theorem chain_of_mem_supertypes {e : Ty × Nat} (h : e ∈ d.supertypes s) : d.Chain s e.2 e.1 := by
  unfold supertypes at h
  cases hreach : d.reach [(s, 0)] [(s, 0)] with
  | none =>
    rw [hreach] at h
    rw [List.mem_singleton.1 h]
    exact .start
  | some found =>
    rw [hreach] at h
    have := (search_of_reach (.init d s) hreach).chain e
    simpa using this (by simpa using h)

/-- Where a type derives from finitely many types, the search gives its supertypes. -/
theorem reach_of_finite (h : {t | ∃ n, d.Chain s n t}.Finite) :
    d.reach [(s, 0)] [(s, 0)] = some (d.supertypes s) := by
  obtain ⟨found, hfound⟩ := exists_reach h.toFinset
    (fun n t ht => h.mem_toFinset.2 ⟨n, ht⟩) (.init d s)
  rw [List.nil_append] at hfound
  rw [supertypes, hfound, Option.getD_some]

/-- The distance between two types, if there is one, is that of inheritance: neither `null` nor a
    conversion of values comes in. -/
def IsInheritance (s t : Ty) : Prop :=
  s = t ∨ t.containsGeneric = false ∧ s ≠ .void ∧ t ≠ .void ∧ s ≠ .null ∧ t.underlying = t ∧
    widens s t = false

theorem distance?_of_isInheritance (h : IsInheritance s t) (hne : s ≠ t) :
    d.distance? s t = ((d.supertypes s).find? (·.1 == t)).map (·.2) := by
  obtain ⟨hgeneric, hs, ht, hnull, hnullable, hwidens⟩ := h.resolve_left hne
  unfold distance?
  rw [if_neg hne, if_neg (by simp [hgeneric, hs, ht]), if_neg hnull]
  split
  · rename_i inner
    have := congrArg sizeOf hnullable
    simp [Ty.underlying] at this
  · rw [if_neg (by simp [hwidens])]

theorem find?_eq_some_iff (h : (found.map (·.1)).Nodup) :
    (found.find? (·.1 == t)).map (·.2) = some k ↔ (t, k) ∈ found := by
  constructor
  · intro hfind
    obtain ⟨e, he, rfl⟩ := Option.map_eq_some_iff.1 hfind
    obtain rfl : e.1 = t := by simpa using List.find?_some he
    exact List.mem_of_find?_eq_some he
  · intro hmem
    have hsome : (found.find? (·.1 == t)).isSome := List.find?_isSome.2 ⟨(t, k), hmem, by simp⟩
    obtain ⟨e, he⟩ := Option.isSome_iff_exists.1 hsome
    have heq : e.1 = t := by simpa using List.find?_some he
    rw [he, List.inj_on_of_nodup_map h (List.mem_of_find?_eq_some he) hmem heq]
    rfl

/-- If a type derives from finitely many types, its supertypes are those, each once and with the
    length of a shortest chain, in the order of these lengths; and that is how far types are
    from each other by inheritance. -/
theorem supertypes_shortest (h : {t | ∃ n, d.Chain s n t}.Finite) :
    d.reach [(s, 0)] [(s, 0)] = some (d.supertypes s) ∧
      ((d.supertypes s).map (·.1)).Nodup ∧ (d.supertypes s).Pairwise (·.2 ≤ ·.2) ∧
      (∀ t, t ∈ (d.supertypes s).map (·.1) ↔ ∃ n, d.Chain s n t) ∧
      (∀ t k, (t, k) ∈ d.supertypes s ↔ IsLeast {n | d.Chain s n t} k) ∧
      ∀ t, IsInheritance s t → ∀ k, d.distance? s t = some k ↔ IsLeast {n | d.Chain s n t} k := by
  have hreach := reach_of_finite h
  have hsearch := search_of_reach (.init d s) hreach
  have hleast (t : Ty) (k : Nat) : (t, k) ∈ d.supertypes s ↔ IsLeast {n | d.Chain s n t} k :=
    hsearch.isLeast
  have hnodup := hsearch.nodup
  have hsorted := hsearch.sorted
  rw [List.append_nil] at hnodup hsorted
  refine ⟨hreach, hnodup, hsorted, fun t => ⟨fun hmem => ?_, fun hn => ?_⟩, hleast, fun t ht k => ?_⟩
  · obtain ⟨e, he, rfl⟩ := List.mem_map.1 hmem
    exact ⟨e.2, ((hleast _ _).1 he).1⟩
  · classical
    exact List.mem_map_of_mem ((hleast _ _).2 ⟨Nat.find_spec hn, fun _ => Nat.find_min' hn⟩)
  · by_cases hst : s = t
    · subst hst
      unfold distance?
      rw [if_pos rfl, Option.some.injEq]
      constructor
      · rintro rfl
        exact ⟨.start, fun _ _ => Nat.zero_le _⟩
      · exact fun hk => (Nat.le_zero.1 (hk.2 .start)).symm
    · rw [← hleast, distance?_of_isInheritance ht hst]
      exact find?_eq_some_iff hnodup

/-- A directory in which two generic classes derive from each other. -/
def circular : Directory where
  catalog :=
    (Catalog.empty.register ((Definition.ofClass "Ring" ["T"]).withBase
      (some (.named "Loop" [.generic "T"])))).register
        (((Definition.ofClass "Loop" ["T"]).withBase
          (some (.named "Ring" [.generic "T"]))).implementing (.named "Items" [.generic "T"]))

theorem supertypes_shortest_circular :
    {t | ∃ n, circular.Chain (.named "Ring" [.int]) n t}.Finite ∧
      circular.distance? (.named "Ring" [.int]) .object = some 3 := by
  have hring : circular.parents (.named "Ring" [.int]) = [.named "Loop" [.int]] := by decide
  have hloop : circular.parents (.named "Loop" [.int]) =
      [.named "Ring" [.int], .named "Items" [.int]] := by decide
  have hitems : circular.parents (.named "Items" [.int]) = [.object] := by decide
  have hchain {n : Nat} {t : Ty} (h : circular.Chain (.named "Ring" [.int]) n t) :
      t = .named "Ring" [.int] ∨ t = .named "Loop" [.int] ∧ 1 ≤ n ∨
        t = .named "Items" [.int] ∧ 2 ≤ n ∨ t = .object ∧ 3 ≤ n := by
    induction h with
    | start => exact .inl rfl
    | step _ hp ih =>
      rcases ih with rfl | ⟨rfl, hn⟩ | ⟨rfl, hn⟩ | ⟨rfl, -⟩
      · rw [hring] at hp
        simp_all
      · rw [hloop] at hp
        rcases List.mem_pair.1 hp with rfl | rfl <;> simp [hn]
      · rw [hitems] at hp
        simp_all
      · cases hp
  have hfinite : {t | ∃ n, circular.Chain (.named "Ring" [.int]) n t}.Finite := by
    refine Set.Finite.subset (List.finite_toSet
      [.named "Ring" [.int], .named "Loop" [.int], .named "Items" [.int], .object]) ?_
    rintro t ⟨n, hn⟩
    rcases hchain hn with rfl | ⟨rfl, -⟩ | ⟨rfl, -⟩ | ⟨rfl, -⟩ <;> simp
  refine ⟨hfinite, ((supertypes_shortest hfinite).2.2.2.2.2 _ (.inr (by decide)) 3).2 ⟨?_, ?_⟩⟩
  · have hone : circular.Chain (.named "Ring" [.int]) 1 (.named "Loop" [.int]) :=
      .step .start (by simp [hring])
    have htwo : circular.Chain (.named "Ring" [.int]) 2 (.named "Items" [.int]) :=
      .step hone (by simp [hloop])
    exact Chain.step htwo (by simp [hitems])
  · intro n hn
    simpa using hchain hn

end Scriptlet.Directory
