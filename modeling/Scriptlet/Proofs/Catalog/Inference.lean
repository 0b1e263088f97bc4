import Scriptlet.Catalog.Library
import Scriptlet.Overload
import Scriptlet.Proofs.Catalog.Hierarchy

/-!
# Inference undoes substitution

A type with its type parameters replaced is compared with the type itself. The comparison goes down
both types together and finds every type parameter, as often as it occurs (`Ty.params`), with the
type that replaces it (`Overload.infer_substitute`). All findings about one of them agree, so it
does not matter which of them counts, and the type parameters are bound as they were replaced
(`Overload.lookup_applyInferred_infer`).
-/

namespace Scriptlet

/-! ## The hierarchy of the library -/

namespace Directory

variable {d : Directory} {s p q : Ty}

/-- Three definitions of the library, from which others derive, have no parent but `object`. -/
theorem eq_object_of_mem_parents (hd : d.catalog = .standard) {name : String} {args : List Ty}
    (hname : (name, args.length) ∈ [("Array", 0), ("Exception", 0), ("IEnumerable", 1)])
    (h : p ∈ d.parents (.named name args)) : p = .object := by
  have hall : [("Array", 0), ("Exception", 0), ("IEnumerable", 1)].all (fun n =>
      (Catalog.standard.find? n.1 n.2).all fun x =>
        (x.base.toList ++ x.interfaces).all (· == .object)) = true := by decide
  rcases mem_parents h with rfl | ⟨e, r, ht, -⟩ | ⟨x, b, hx, q, hq, rfl⟩
  · rfl
  · cases ht
  · obtain ⟨y, hy, hxy⟩ := Option.map_eq_some_iff.1 hx
    obtain ⟨rfl, -⟩ := Prod.mk.inj hxy
    have hparents := List.all_eq_true.1 hall _ hname
    rw [← hd, show d.catalog.find? name args.length = some y from hy] at hparents
    obtain rfl := eq_of_beq (List.all_eq_true.1 hparents q hq)
    rfl

/-- In the library, what something derives from has no parent but `object`. -/
theorem eq_object_of_grandparent (hd : d.catalog = .standard) (hp : p ∈ d.parents s)
    (hq : q ∈ d.parents p) : q = .object := by
  have hall : Catalog.standard.definitions.all (fun x => (x.base.toList ++ x.interfaces).all
      ([.object, .named "Exception" [], .named "IEnumerable" [.char],
        .named "IEnumerable" [.generic "T"]].contains ·)) = true := by decide
  rcases mem_parents hp with rfl | ⟨e, r, -, rfl | rfl⟩ | ⟨x, b, hx, u, hu, rfl⟩
  · cases hq
  · exact eq_object_of_mem_parents hd (by simp) hq
  · exact eq_object_of_mem_parents hd (by simp) hq
  · have hmem := List.all_eq_true.1 (List.all_eq_true.1 hall x (hd ▸ mem_of_definition? hx)) u hu
    simp only [List.contains_iff_mem, List.mem_cons, List.not_mem_nil, or_false] at hmem
    rcases hmem with rfl | rfl | rfl | rfl
    · cases hq
    all_goals exact eq_object_of_mem_parents hd (by simp [Ty.substituteAll]) hq

theorem finite_chain (hd : d.catalog = .standard) (s : Ty) : {t | ∃ n, d.Chain s n t}.Finite := by
  refine Set.Finite.subset (List.finite_toSet (s :: .object :: d.parents s)) ?_
  rintro t ⟨n, hn⟩
  change t ∈ s :: .object :: d.parents s
  induction hn with
  | start => exact List.mem_cons_self
  | step _ hp ih =>
    rcases List.mem_cons.1 ih with rfl | ih
    · simp [hp]
    · rcases List.mem_cons.1 ih with rfl | ih
      · cases hp
      · simp [eq_object_of_grandparent hd ih hp]

end Directory

/-! ## Comparing types -/

namespace Ty

mutual

/-- The type parameters in a type, as often as they occur. -/
def params : Ty → List String
  | generic name => [name]
  | nullable t => t.params
  | array t _ => t.params
  | named _ args => paramsAll args
  | function params ret => paramsAll params ++ ret.params
  | _ => []

/-- The type parameters in types. -/
def paramsAll : List Ty → List String
  | [] => []
  | t :: ts => t.params ++ paramsAll ts

end

mutual

theorem params_eq_nil : (t : Ty) → t.containsGeneric = false → t.params = []
  | nullable t, h | array t _, h => params_eq_nil t h
  | named _ args, h => paramsAll_eq_nil args h
  | function ps r, h => by
    rw [containsGeneric, Bool.or_eq_false_iff] at h
    rw [params, paramsAll_eq_nil ps h.1, params_eq_nil r h.2, List.append_nil]
  | void, _ | null, _ | object, _ | bool, _ | char, _ | string, _ | numeric _, _ => rfl

theorem paramsAll_eq_nil : (ts : List Ty) → anyContainsGeneric ts = false → paramsAll ts = []
  | [], _ => rfl
  | t :: ts, h => by
    rw [anyContainsGeneric, Bool.or_eq_false_iff] at h
    rw [paramsAll, params_eq_nil t h.1, paramsAll_eq_nil ts h.2, List.append_nil]

end

end Ty

namespace Overload

variable {d : Directory} {names : List String} {b : Ty.Bindings} {found : List Inferred}

/-- A type is among its supertypes as the first. -/
theorem argumentsOf?_self (d : Directory) (name : String) (args : List Ty) :
    argumentsOf? d (.named name args) name args.length = some args := by
  obtain ⟨rest, hrest⟩ := d.exists_supertypes (.named name args)
  simp [argumentsOf?, hrest]

/-- The findings are about these type parameters in this order, and give what replaces them. -/
def Recovers (b : Ty.Bindings) (params : List String) (found : List Inferred) : Prop :=
  found.map (·.name) = params ∧ ∀ i ∈ found, b.lookup i.name = some i.type

theorem Recovers.append {ps qs : List String} {found' : List Inferred} (h : Recovers b ps found)
    (h' : Recovers b qs found') : Recovers b (ps ++ qs) (found ++ found') :=
  ⟨by rw [List.map_append, h.1, h'.1], fun i hi => (List.mem_append.1 hi).elim (h.2 i) (h'.2 i)⟩

/-- The type parameters are looked for, and each is replaced by a type other than that of `null`. -/
def Settled (names : List String) (b : Ty.Bindings) (params : List String) : Prop :=
  ∀ g ∈ params, g ∈ names ∧ ∃ t, b.lookup g = some t ∧ t ≠ .null

mutual

/-- Comparing a type with itself after replacement gives what the type parameters were replaced
    by. -/
theorem infer_substitute (d : Directory) : (t : Ty) → (depth : Nat) → Settled names b t.params →
    Recovers b t.params (infer d names depth t (t.substitute b))
  | .generic g, depth, h => by
    obtain ⟨hg, t, ht, hnull⟩ := h g (List.mem_singleton_self g)
    simp [infer, Ty.substitute, Ty.params, ht, hg, hnull, Recovers]
  | .nullable t, depth, h => infer_substitute d t (depth + 1) h
  | .array t rank, depth, h => by
    simpa [infer, Ty.substitute, Ty.params] using infer_substitute d t (depth + 1) h
  | .named name args, depth, h => by
    have hlength : args.length = (Ty.substituteAll b args).length := by
      simp [Ty.substituteAll_eq_map]
    rw [infer, Ty.substitute]
    split
    · rw [hlength, argumentsOf?_self]
      exact inferAll_substitute d args (depth + 1) h
    · rename_i hgeneric
      rw [Ty.params, Ty.paramsAll_eq_nil args (Bool.eq_false_iff.2 hgeneric)]
      exact ⟨rfl, by simp⟩
  | .function ps r, depth, h => by
    have hlength : (Ty.substituteAll b ps).length = ps.length := by
      simp [Ty.substituteAll_eq_map]
    rw [Ty.substitute.eq_def, infer, if_pos hlength]
    exact (inferAll_substitute d ps (depth + 1) fun g hg => h g (List.mem_append_left _ hg)).append
      (infer_substitute d r (depth + 1) fun g hg => h g (List.mem_append_right _ hg))
  | .void, _, _ | .null, _, _ | .object, _, _ | .bool, _, _ | .char, _, _ | .string, _, _
  | .numeric _, _, _ => ⟨rfl, by simp [infer]⟩

theorem inferAll_substitute (d : Directory) : (ts : List Ty) → (depth : Nat) →
    Settled names b (Ty.paramsAll ts) →
    Recovers b (Ty.paramsAll ts) (inferAll d names depth ts (Ty.substituteAll b ts))
  | [], _, _ => ⟨rfl, by simp [inferAll]⟩
  | t :: ts, depth, h =>
    (infer_substitute d t depth fun g hg => h g (List.mem_append_left _ hg)).append
      (inferAll_substitute d ts depth fun g hg => h g (List.mem_append_right _ hg))

end

/-! ## Bindings -/

/-- Of the findings about a type parameter, if there are any, one counts. -/
theorem exists_deepest? {g : String} (hg : g ∈ found.map (·.name)) :
    ∃ i ∈ found, i.name = g ∧ deepest? g found = some i.type := by
  have hmem : ∀ i ∈ found.filter (·.name == g), i ∈ found ∧ i.name = g := by simp
  unfold deepest?
  cases hl : found.filter (·.name == g) with
  | nil =>
    obtain ⟨i, hi, rfl⟩ := List.mem_map.1 hg
    have hi' : i ∈ found.filter (·.name == i.name) := by simp [hi]
    rw [hl] at hi'
    cases hi'
  | cons j l =>
    rw [hl] at hmem
    rw [List.foldl_cons]
    clear hl
    induction l generalizing j with
    | nil => exact ⟨j, (hmem j (by simp)).1, (hmem j (by simp)).2, rfl⟩
    | cons i l ih =>
      rw [List.foldl_cons]
      dsimp only
      split
      · exact ih i fun k hk => hmem k (List.mem_cons_of_mem j hk)
      · refine ih j fun k hk => hmem k ?_
        rcases List.mem_cons.1 hk with rfl | hk
        · exact List.mem_cons_self
        · exact List.mem_cons_of_mem _ (List.mem_cons_of_mem _ hk)

/-- Takes up a finding, unless there is a type already. -/
def Inferred.add (c : Ty.Bindings) (i : Inferred) : Ty.Bindings :=
  if (c.lookup i.name).isSome then c else (i.name, i.type) :: c

theorem lookup_foldl_add (h : ∀ i ∈ found, b.lookup i.name = some i.type) (c : Ty.Bindings)
    (g : String) : (found.foldl Inferred.add c).lookup g =
      (c.lookup g).or (if g ∈ found.map (·.name) then b.lookup g else none) := by
  induction found generalizing c with
  | nil => simp
  | cons i found ih =>
    obtain ⟨hi, hfound⟩ := List.forall_mem_cons.1 h
    rw [List.foldl_cons, ih hfound, Inferred.add]
    by_cases hg : g = i.name
    · subst hg
      cases hc : c.lookup i.name with
      | some t => simp [hc]
      | none => simp [hi]
    · split <;> simp [List.lookup_cons, hg, beq_false_of_ne hg]

/-- Where all findings about a type parameter agree, it is bound to what they say. -/
theorem lookup_applyInferred (h : ∀ i ∈ found, b.lookup i.name = some i.type) (g : String) :
    (applyInferred [] found).lookup g = if g ∈ found.map (·.name) then b.lookup g else none := by
  have hdeepest : ∀ i ∈ found, deepest? i.name found = some i.type := by
    intro i hi
    obtain ⟨j, hj, hname, hdeepest⟩ := exists_deepest? (List.mem_map_of_mem hi)
    rw [hdeepest, ← h j hj, hname, h i hi]
  have hadd : applyInferred [] found = found.foldl Inferred.add [] := by
    refine List.foldl_ext _ _ _ fun c i hi => ?_
    rw [hdeepest i hi, Inferred.add]
    cases c.lookup i.name <;> rfl
  rw [hadd, lookup_foldl_add h, List.lookup_nil, Option.none_or]

/-- Over the library, where searching supertypes always comes to an end, comparing a type with
    itself after replacement of its type parameters binds each of them to what replaced it, and
    nothing else. -/
theorem lookup_applyInferred_infer (hd : d.catalog = .standard) {t : Ty}
    (h : Settled names b t.params) :
    (∀ s, d.reach [(s, 0)] [(s, 0)] = some (d.supertypes s)) ∧
      ∀ g, (applyInferred [] (infer d names 0 t (t.substitute b))).lookup g =
        if g ∈ t.params then b.lookup g else none := by
  refine ⟨fun s => Directory.reach_of_finite (Directory.finite_chain hd s), fun g => ?_⟩
  obtain ⟨hnames, hfound⟩ := infer_substitute d t 0 h
  rw [← hnames]
  exact lookup_applyInferred hfound g

theorem lookup_applyInferred_infer_delegate :
    Settled ["T", "U"] [("T", .int), ("U", .nullable .bool)] ["T", "T", "U"] ∧
      (applyInferred [] (infer { catalog := .standard } ["T", "U"] 0
        (.function [.named "List" [.generic "T"], .array (.nullable (.generic "T")) 2] (.generic "U"))
        (.function [.named "List" [.int], .array (.nullable .int) 2] (.nullable .bool)))).lookup "T" =
        some .int := by
  have hsettled : Settled ["T", "U"] [("T", .int), ("U", .nullable .bool)] ["T", "T", "U"] := by
    intro g hg
    simp only [List.mem_cons, List.not_mem_nil, or_false] at hg
    rcases hg with rfl | rfl | rfl
    all_goals exact ⟨by decide, _, rfl, by decide⟩
  exact ⟨hsettled, (lookup_applyInferred_infer (t := .function [.named "List" [.generic "T"],
    .array (.nullable (.generic "T")) 2] (.generic "U")) rfl hsettled).2 "T"⟩

end Overload

end Scriptlet
