import Mathlib
import Scriptlet.Catalog.Library
import Scriptlet.Overload

/-!
# Which method is chosen

Arguments that have types are passed to the parameters of a method one by one, or, where the last
parameter takes all further arguments, those are collected in an array (`Overload.Passed`). An
argument is passed as it is or with one conversion around it (`Overload.Fits`). A method is
applicable at the distance that this adds up to (`Overload.ApplicableAt`).

Trying a method comes to a call exactly if it is applicable (`Overload.run_tryCandidate`), and of
several outcomes the first of least distance is kept (`Overload.Best.first_foldl`). So the method
that is chosen is the first of least distance (`Overload.select_typed`).
-/

namespace Scriptlet

namespace Overload

variable {d : Directory} {b : Ty.Bindings} {t : Ty} {e : Expr} {n i : Nat} {args out : List Expr}
  {ps : List Param} {p : Param} {f : Method}

/-! ## Passing arguments -/

/-- An argument is passed where a type is wanted, at a distance: as it is or converted, so that it
    has the type, or is a reference to something that is one of the type. -/
structure Fits (d : Directory) (t : Ty) (e passed : Expr) (n : Nat) : Prop where
  distance : d.distance? e.type t = some n
  shape : passed = e ∨ passed = .convert e t
  type : passed.type = t ∨ passed.type.isReference ∧ (d.distance? passed.type t).isSome

theorem fits_coerce (h : d.distance? e.type t = some n) : Fits d t e (e.coerce t) n := by
  have hvoid : t = .void → e.type = t := by
    rintro rfl
    by_contra hne
    simp [Directory.distance?, hne] at h
  unfold Expr.coerce
  split
  · rename_i htype
    exact ⟨h, .inl rfl, .inl (htype.elim id hvoid)⟩
  · rename_i htype
    rw [not_or] at htype
    split
    · rw [Expr.convertTo, if_neg htype.1]
      exact ⟨h, .inr rfl, .inl rfl⟩
    · rename_i hreference
      simp only [Bool.or_eq_true, Bool.not_eq_true', not_or, Bool.not_eq_false] at hreference
      exact ⟨h, .inl rfl, .inr ⟨hreference.1.1, h ▸ rfl⟩⟩

/-- An array, or `null`, can stand for all further arguments. -/
def IsWhole (e : Expr) : Prop := e.type = .null ∨ ∃ t r, e.type = .array t r

/-- How arguments are passed to parameters: what the method gets, and the distance in all. -/
inductive Passed (d : Directory) (b : Ty.Bindings) :
    List Param → (args passed : List Expr) → (n : Nat) → Prop
  /-- One argument for each parameter; for one that takes further arguments, an array. -/
  | each {ps : List Param} {args : List Expr} {rs : List (Expr × Nat)}
      (whole : ∀ p ∈ ps.getLast?, p.isRest → ∀ e ∈ args.getLast?, IsWhole e)
      (length : ps.length = args.length)
      (fits : List.Forall₂ (fun x r => Fits d (x.1.type.substitute b) x.2 r.1 r.2) (ps.zip args) rs) :
      Passed d b ps args (rs.map (·.1)) (rs.map (·.2)).sum
  /-- The further arguments are the items of an array. Of their distances the greatest counts. -/
  | collected {ps : List Param} {p : Param} {t : Ty} {args items : List Expr}
      {rs ss : List (Expr × Nat)} (rest : p.isRest) (type : p.type = .arrayOf t)
      (whole : ∀ e, items = [e] → ¬ IsWhole e) (length : ps.length = args.length)
      (fits : List.Forall₂ (fun x r => Fits d (x.1.type.substitute b) x.2 r.1 r.2) (ps.zip args) rs)
      (fitting : List.Forall₂ (fun e r => Fits d (t.substitute b) e r.1 r.2) items ss) :
      Passed d b (ps ++ [p]) (args ++ items)
        (rs.map (·.1) ++ [Expr.arrayOfItems (t.substitute b) (ss.map (·.1))])
        ((rs.map (·.2)).sum + (ss.map (·.2)).foldl max 0)

/-- The method gets one argument for each parameter. -/
theorem Passed.length_eq (h : Passed d b ps args out n) : out.length = ps.length := by
  cases h with
  | each _ length fits | collected _ _ _ length fits _ => simpa [length] using fits.length_eq.symm

/-! ## The types that are wanted -/

theorem isVariadic_iff : f.isVariadic ↔ ∃ ps p, f.params = ps ++ [p] ∧ p.isRest := by
  unfold Method.isVariadic
  constructor
  · intro h
    obtain ⟨p, hp, hrest⟩ := (Option.any_eq_true _ _).1 h
    obtain ⟨ps, hps⟩ := List.getLast?_eq_some_iff.1 hp
    exact ⟨ps, p, hps, hrest⟩
  · rintro ⟨ps, p, hps, hrest⟩
    simp [hps, hrest]

theorem fixedCount_of_rest (hf : f.params = ps ++ [p]) (hp : p.isRest) :
    fixedCount f = ps.length := by
  rw [fixedCount, if_pos (isVariadic_iff.2 ⟨ps, p, hf, hp⟩), hf]
  simp

theorem wanted_each (hp : f.params[i]? = some p) : wanted f false i = p.type := by
  unfold wanted
  dsimp only
  split
  · simp [hp]
  · rename_i hi
    have hlt : i < f.params.length := (List.getElem?_eq_some_iff.1 hp).1
    have hfixed : fixedCount f = f.params.length ∨ fixedCount f = f.params.length - 1 := by
      unfold fixedCount
      split <;> simp
    rw [show fixedCount f = i by omega, hp, Option.map_some, Option.getD_some]
    cases p.type <;> rfl

theorem wanted_collected (hf : f.params = ps ++ [p]) (hp : p.isRest) (ht : p.type = .arrayOf t) :
    wanted f true i = ((ps[i]?).map (·.type)).getD t := by
  unfold wanted
  dsimp only
  rw [fixedCount_of_rest hf hp, hf]
  split
  · rename_i hi
    simp [List.getElem?_append_left hi, List.getElem?_eq_getElem hi]
  · rename_i hi
    rw [List.getElem?_eq_none (Nat.le_of_not_lt hi)]
    simp [ht]

/-! ## Trying a method -/

/-- Whether the further arguments are collected. -/
def collects (f : Method) (args : List Expr) : Bool :=
  expands f (args.map (Argument.typed (β := Empty)))

theorem isWholeRest_iff {β : Type} : isWholeRest (.typed e : Argument β) ↔ IsWhole e := by
  rw [isWholeRest, IsWhole]
  generalize e.type = t
  cases t <;> simp

theorem collects_iff : collects f args ↔ ∃ ps p, f.params = ps ++ [p] ∧ p.isRest ∧
    (args.length = f.params.length → ∀ e ∈ args.getLast?, ¬ IsWhole e) := by
  have hwhole : args.getLast?.any (fun e => isWholeRest (.typed e : Argument Empty)) ↔
      ∃ e ∈ args.getLast?, IsWhole e := by
    simp [Option.any_eq_true, isWholeRest_iff]
  unfold collects expands
  rw [List.getLast?_map, Option.any_map, Bool.and_eq_true, isVariadic_iff, Bool.not_eq_true',
    ← Bool.not_eq_true, Bool.and_eq_true, hwhole, List.length_map, beq_iff_eq]
  constructor
  · rintro ⟨⟨ps, p, hps, hp⟩, hnot⟩
    exact ⟨ps, p, hps, hp, fun hlength e he hw => hnot ⟨hlength, e, he, hw⟩⟩
  · rintro ⟨ps, p, hps, hp, hnot⟩
    refine ⟨⟨ps, p, hps, hp⟩, ?_⟩
    rintro ⟨hlength, e, he, hw⟩
    exact hnot hlength e he hw

/-- A method that is tried on arguments with types. -/
def attempt (d : Directory) (c : Candidate) (args : List Expr) : Attempt where
  method := c.method
  expanded := collects c.method args
  unbound := c.method.generics.filter fun g =>
    ((((d.definition? c.owner).map (·.2)).getD []).lookup g).isNone

/-- What the type parameters of a method stand for in a call: all of them are given by its owner,
    by the call or by the arguments. -/
def Binds (d : Directory) (explicit : List Ty) (args : List Expr) (c : Candidate)
    (b : Ty.Bindings) : Prop :=
  startBindings d (attempt d c args) (((d.definition? c.owner).map (·.2)).getD []) explicit
    (args.map (Argument.typed (β := Empty))) = some b ∧ ∀ g ∈ c.method.generics, (b.lookup g).isSome

/-- A method can take the arguments, at a distance. -/
def ApplicableAt (d : Directory) (explicit : List Ty) (args : List Expr) (c : Candidate) (n : Nat) :
    Prop :=
  ∃ b out, Binds d explicit args c b ∧ Passed d b c.method.params args out n

theorem mapM_eq_some_iff {α γ : Type} {g : α → Option γ} {l : List α} {r : List γ} :
    l.mapM g = some r ↔ List.Forall₂ (fun a c => g a = some c) l r := by
  induction l generalizing r with
  | nil => simp [eq_comm]
  | cons a l ih =>
    rw [List.mapM_cons]
    constructor
    · intro h
      obtain ⟨c, hc, h⟩ := Option.bind_eq_some_iff.1 h
      obtain ⟨cs, hcs, h⟩ := Option.bind_eq_some_iff.1 h
      exact Option.some.inj h ▸ .cons hc (ih.1 hcs)
    · rintro (_ | ⟨hc, hcs⟩)
      simp [hc, ih.2 hcs]

/-- Arguments are settled if each has a distance from what is wanted. -/
theorem settle?_eq_some_iff {β : Type} {a : Attempt} {rs : List (Expr × Nat)} :
    settle? d a b (args.map (Slot.typed (β := β))) = some rs ↔ args.length = rs.length ∧
      ∀ i (hi : i < args.length) (hr : i < rs.length),
        d.distance? (args[i]).type ((wanted a.method a.expanded i).substitute b) = some (rs[i]).2 ∧
          (rs[i]).1 = (args[i]).coerce ((wanted a.method a.expanded i).substitute b) := by
  have hsettle (i : Nat) (e : Expr) (r : Expr × Nat) :
      (Slot.typed (β := β) e).settle? d ((wanted a.method a.expanded i).substitute b) = some r ↔
        d.distance? e.type ((wanted a.method a.expanded i).substitute b) = some r.2 ∧
          r.1 = e.coerce ((wanted a.method a.expanded i).substitute b) := by
    rw [Slot.settle?, Option.map_eq_some_iff]
    constructor
    · rintro ⟨n, hn, rfl⟩
      exact ⟨hn, rfl⟩
    · rintro ⟨hn, hr⟩
      exact ⟨r.2, hn, Prod.ext hr.symm rfl⟩
  unfold settle?
  rw [mapM_eq_some_iff, List.forall₂_iff_get]
  simp only [List.length_zipIdx, List.length_map, List.get_eq_getElem, List.getElem_zipIdx,
    List.getElem_map, Nat.zero_add, hsettle]

theorem exists_settle (β : Type) {a : Attempt} {ns : List Nat} (hlength : args.length = ns.length)
    (h : ∀ i (hi : i < args.length) (hn : i < ns.length),
      d.distance? (args[i]).type ((wanted a.method a.expanded i).substitute b) = some ns[i]) :
    ∃ rs, settle? d a b (args.map (Slot.typed (β := β))) = some rs ∧ rs.map (·.2) = ns := by
  refine ⟨List.ofFn fun i : Fin args.length =>
    ((args[i]).coerce ((wanted a.method a.expanded i).substitute b), ns.get (i.cast hlength)), ?_, ?_⟩
  · rw [settle?_eq_some_iff]
    refine ⟨by simp, fun i hi hr => ?_⟩
    simp [h i hi (hlength ▸ hi)]
  · refine List.ext_getElem (by simpa using hlength) fun i hi hn => ?_
    simp

theorem takes_of_passed (h : Passed d b f.params args out n) : takes f args.length := by
  generalize hf : f.params = params at h
  unfold takes
  cases h with
  | each whole length fits =>
    subst hf
    have hle : fixedCount f ≤ f.params.length := by
      unfold fixedCount
      split <;> omega
    split <;> simp <;> omega
  | collected rest _ _ length _ _ =>
    rw [if_pos (isVariadic_iff.2 ⟨_, _, hf, rest⟩), fixedCount_of_rest hf rest]
    simp [length]

theorem collects_of_each (hlength : f.params.length = args.length)
    (hwhole : ∀ p ∈ f.params.getLast?, p.isRest → ∀ e ∈ args.getLast?, IsWhole e) :
    collects f args = false := by
  rw [← Bool.not_eq_true, collects_iff]
  rintro ⟨ps, p, hf, hp, hnot⟩
  have hne : args ≠ [] := by
    rintro rfl
    simp [hf] at hlength
  have hlast := List.getLast?_eq_some_getLast hne
  exact hnot hlength.symm _ hlast (hwhole p (by simp [hf]) hp _ hlast)

theorem collects_of_collected {items : List Expr} (hf : f.params = ps ++ [p]) (hp : p.isRest)
    (hlength : ps.length = args.length) (hwhole : ∀ e, items = [e] → ¬ IsWhole e) :
    collects f (args ++ items) = true := by
  refine collects_iff.2 ⟨ps, p, hf, hp, fun hall e he => hwhole e ?_⟩
  rw [List.length_append, hf, List.length_append, hlength, Nat.add_right_inj] at hall
  obtain ⟨x, rfl⟩ := List.length_eq_one_iff.1 hall
  simpa using he

variable {c : Candidate}

/-- What can be passed is settled, at the same distance. -/
theorem settle_of_passed (β : Type) (h : Passed d b c.method.params args out n) :
    ∃ rs, settle? d (attempt d c args) b (args.map (Slot.typed (β := β))) = some rs ∧
      totalDistance (attempt d c args) (rs.map (·.2)) = n := by
  generalize hf : c.method.params = params at h
  cases h with
  | @each _ _ rs whole length fits =>
    subst hf
    have hexpanded : (attempt d c args).expanded = false := collects_of_each length whole
    obtain ⟨hrs, hfits⟩ := List.forall₂_iff_get.1 fits
    rw [List.length_zip, length, Nat.min_self] at hrs
    have hdistance (i : Nat) (hi : i < args.length) (hn : i < (rs.map (·.2)).length) :
        d.distance? (args[i]).type ((wanted (attempt d c args).method
          (attempt d c args).expanded i).substitute b) = some (rs.map (·.2))[i] := by
      rw [hexpanded, attempt, wanted_each (List.getElem?_eq_getElem (length ▸ hi))]
      simpa using (hfits i (by simp [length, hi]) (hrs ▸ hi)).distance
    obtain ⟨rs', hsettle, hmap⟩ := exists_settle β (by simpa using hrs) hdistance
    refine ⟨rs', hsettle, ?_⟩
    rw [totalDistance, hexpanded, hmap, List.sum_eq_foldl]
    rfl
  | @collected ps p t args items rs ss rest type whole length fits fitting =>
    have hexpanded : (attempt d c (args ++ items)).expanded = true :=
      collects_of_collected hf rest length whole
    obtain ⟨hrs, hfits⟩ := List.forall₂_iff_get.1 fits
    obtain ⟨hss, hfitting⟩ := List.forall₂_iff_get.1 fitting
    rw [List.length_zip, length, Nat.min_self] at hrs
    have hdistance (i : Nat) (hi : i < (args ++ items).length)
        (hn : i < (rs.map (·.2) ++ ss.map (·.2)).length) :
        d.distance? ((args ++ items)[i]).type ((wanted (attempt d c (args ++ items)).method
          (attempt d c (args ++ items)).expanded i).substitute b) =
          some (rs.map (·.2) ++ ss.map (·.2))[i] := by
      rw [hexpanded, attempt, wanted_collected hf rest type]
      by_cases hlt : i < args.length
      · have h := (hfits i (by simp [length, hlt]) (hrs ▸ hlt)).distance
        simpa [List.getElem_append, hlt, length, ← hrs] using h
      · have hge : args.length ≤ i := Nat.le_of_not_lt hlt
        have hi' : i - args.length < items.length := by
          rw [List.length_append] at hi
          omega
        have h := (hfitting (i - args.length) hi' (hss ▸ hi')).distance
        rw [List.getElem?_eq_none (length ▸ hge)]
        simpa [List.getElem_append, hlt, ← hrs] using h
    obtain ⟨rs', hsettle, hmap⟩ := exists_settle β (by simp [hrs, hss]) hdistance
    refine ⟨rs', hsettle, ?_⟩
    have hfixed : fixedCount (attempt d c (args ++ items)).method = (rs.map (·.2)).length := by
      rw [attempt, fixedCount_of_rest hf rest, List.length_map, length, hrs]
    rw [totalDistance, hexpanded, hmap, if_pos rfl, hfixed, List.take_left, List.drop_left,
      List.sum_eq_foldl]

theorem each_of_collects (htakes : takes f args.length) (h : collects f args = false) :
    f.params.length = args.length ∧
      ∀ p ∈ f.params.getLast?, p.isRest → ∀ e ∈ args.getLast?, IsWhole e := by
  rw [← Bool.not_eq_true, collects_iff] at h
  rw [takes] at htakes
  split at htakes
  · rename_i hvariadic
    obtain ⟨ps, p, hf, hp⟩ := isVariadic_iff.1 hvariadic
    have hlast : ¬ (args.length = f.params.length → ∀ e ∈ args.getLast?, ¬ IsWhole e) :=
      fun hlast => h ⟨ps, p, hf, hp, hlast⟩
    push Not at hlast
    obtain ⟨hlength, e, he, hwhole⟩ := hlast
    refine ⟨hlength.symm, fun _ _ _ e' he' => ?_⟩
    rwa [Option.mem_unique he' he]
  · rename_i hvariadic
    refine ⟨(eq_of_beq htakes).symm, fun p hp hrest => absurd ?_ hvariadic⟩
    obtain ⟨ps, hps⟩ := List.getLast?_eq_some_iff.1 hp
    exact isVariadic_iff.2 ⟨ps, p, hps, hrest⟩

/-- What is settled is passed. -/
theorem passed_of_settle {β : Type} {rs : List (Expr × Nat)}
    (hrest : ∀ p ∈ c.method.params, p.isRest → ∃ t, p.type = .arrayOf t)
    (htakes : takes c.method args.length)
    (h : settle? d (attempt d c args) b (args.map (Slot.typed (β := β))) = some rs) :
    Passed d b c.method.params args (collect (attempt d c args) b (rs.map (·.1)))
      (totalDistance (attempt d c args) (rs.map (·.2))) := by
  obtain ⟨hlength, hrs⟩ := settle?_eq_some_iff.1 h
  have hfits (i : Nat) (hi : i < args.length) (hr : i < rs.length) :
      Fits d ((wanted (attempt d c args).method (attempt d c args).expanded i).substitute b) args[i]
        (rs[i]).1 (rs[i]).2 := by
    obtain ⟨hdistance, hcoerce⟩ := hrs i hi hr
    exact hcoerce ▸ fits_coerce hdistance
  cases hexpanded : (attempt d c args).expanded with
  | false =>
    obtain ⟨hparams, hwhole⟩ := each_of_collects htakes hexpanded
    rw [collect, totalDistance, hexpanded, if_neg Bool.false_ne_true, if_neg Bool.false_ne_true,
      ← List.sum_eq_foldl]
    refine .each hwhole hparams (List.forall₂_iff_get.2 ⟨by simp [hparams, hlength], ?_⟩)
    intro i hi hr
    have hi' : i < args.length := hlength ▸ hr
    have h := hfits i hi' hr
    rw [hexpanded, attempt, wanted_each (List.getElem?_eq_getElem (hparams ▸ hi'))] at h
    simpa using h
  | true =>
    obtain ⟨ps, p, hf, hp, hwhole⟩ := collects_iff.1 hexpanded
    obtain ⟨t, ht⟩ := hrest p (by simp [hf]) hp
    have hfixed : fixedCount (attempt d c args).method = ps.length := fixedCount_of_rest hf hp
    have hle : ps.length ≤ args.length := by
      rw [takes, if_pos (isVariadic_iff.2 ⟨ps, p, hf, hp⟩), fixedCount_of_rest hf hp] at htakes
      simpa using htakes
    have hlast : ∀ e, args.drop ps.length = [e] → ¬ IsWhole e := by
      intro e he
      have hargs := List.take_append_drop ps.length args
      rw [he] at hargs
      refine hwhole ?_ e (by rw [← hargs]; simp)
      rw [← hargs, hf]
      simp [hle]
    have htake : List.Forall₂ (fun x r => Fits d (x.1.type.substitute b) x.2 r.1 r.2)
        (ps.zip (args.take ps.length)) (rs.take ps.length) := by
      refine List.forall₂_iff_get.2 ⟨by simp [hlength], fun i hi hr => ?_⟩
      have hi' : i < ps.length := by
        rw [List.length_zip] at hi
        omega
      have h := hfits i (by omega) (by omega)
      rw [hexpanded, attempt, wanted_collected hf hp ht, List.getElem?_eq_getElem hi'] at h
      simpa using h
    have hdrop : List.Forall₂ (fun e r => Fits d (t.substitute b) e r.1 r.2)
        (args.drop ps.length) (rs.drop ps.length) := by
      refine List.forall₂_iff_get.2 ⟨by simp [hlength], fun i hi hr => ?_⟩
      rw [List.length_drop] at hi
      have h := hfits (ps.length + i) (by omega) (by omega)
      rw [hexpanded, attempt, wanted_collected hf hp ht,
        List.getElem?_eq_none (Nat.le_add_right _ _)] at h
      simpa using h
    have h := Passed.collected hp ht hlast (by simp [hle]) htake hdrop
    rw [← hf, List.take_append_drop] at h
    rw [collect, totalDistance, hexpanded, if_pos rfl, if_pos rfl, hfixed, ← List.sum_eq_foldl,
      attempt, wanted_collected hf hp ht, List.getElem?_eq_none (Nat.le_refl _)]
    simpa using h

section

variable {m : Type → Type} [Monad m] [LawfulMonad m] {β : Type} {bind : Binder m β}
  {explicit : List Ty} {offset : Nat}

/-- Arguments with types have nothing to be read. -/
theorem bindPass_typed (a : Attempt) (i : Nat) (args : List Expr) :
    bindPass d bind a i b (args.map .typed) = pure ⟨b, args.map .typed, false, false⟩ := by
  induction args generalizing i with
  | nil => rfl
  | cons e args ih => simp [bindPass, ih]

theorem bindLambdas_typed (a : Attempt) (steps : Nat) (args : List Expr) :
    bindLambdas d bind a steps b (args.map .typed) = pure (b, args.map .typed) := by
  cases steps with
  | zero => rfl
  | succ steps => simp [bindLambdas, bindPass_typed]

theorem startBindings_typed (a : Attempt) (owner : Ty.Bindings) (args : List Expr) :
    startBindings d a owner explicit (args.map (Argument.typed (β := β))) =
      startBindings d a owner explicit (args.map (Argument.typed (β := Empty))) := by
  simp [startBindings, inferTyped, List.zipIdx_map, List.flatMap_map]

theorem expands_typed (f : Method) (args : List Expr) :
    expands f (args.map (Argument.typed (β := β))) = collects f args := by
  unfold collects expands
  rw [List.getLast?_map, List.getLast?_map, List.length_map, List.length_map]
  cases args.getLast? <;> rfl

/-- Trying a method on arguments with types gives a call, with the arguments as they are passed, if
    the method is applicable. -/
theorem run_tryCandidate (bind : Binder m β) (explicit : List Ty) (args : List Expr) (offset : Nat)
    (hrest : ∀ p ∈ c.method.params, p.isRest → ∃ t, p.type = .arrayOf t) :
    ∃ r, (tryCandidate d bind c explicit (args.map .typed) offset).run = pure r ∧
      (∀ s, r = .ok s → s.method = c.method ∧ s.owner = c.owner ∧
        ∃ b, Binds d explicit args c b ∧ Passed d b c.method.params args s.args s.distance) ∧
      ∀ n, ApplicableAt d explicit args c n → ∃ s, r = .ok s ∧ s.distance = n := by
  unfold tryCandidate
  rw [List.length_map]
  cases htakes : takes c.method args.length with
  | false =>
    refine ⟨.error none, rfl, by simp, ?_⟩
    rintro n ⟨b, out, -, hpassed⟩
    simp [takes_of_passed hpassed] at htakes
  | true =>
    rw [if_neg (by simp)]
    dsimp only
    rw [expands_typed, startBindings_typed, ← attempt]
    cases hstart : startBindings d (attempt d c args)
        (((d.definition? c.owner).map (·.2)).getD []) explicit
        (args.map (Argument.typed (β := Empty))) with
    | none =>
      refine ⟨.error none, rfl, by simp, ?_⟩
      rintro n ⟨b, out, hbinds, -⟩
      cases hstart.symm.trans hbinds.1
    | some b =>
      dsimp only
      rw [List.map_map, show Slot.ofArgument ∘ Argument.typed = Slot.typed (β := β) from rfl,
        bindLambdas_typed, pure_bind]
      dsimp only
      have hunique {b'} (h : Binds d explicit args c b') : b' = b :=
        Option.some.inj (h.1.symm.trans hstart)
      split
      · rename_i g hg
        refine ⟨.error (some _), rfl, by simp, ?_⟩
        rintro n ⟨b', out, hbinds, -⟩
        obtain rfl := hunique hbinds
        have hnone : (b'.lookup g).isNone = true :=
          List.find?_some (p := fun g => (b'.lookup g).isNone) hg
        have hsome := hbinds.2 g (List.mem_of_find?_eq_some hg)
        rw [Option.isNone_iff_eq_none.1 hnone] at hsome
        cases hsome
      · rename_i hg
        have hbinds : Binds d explicit args c b := by
          refine ⟨hstart, fun g hmem => ?_⟩
          simpa using List.find?_eq_none.1 hg g hmem
        cases hsettle : settle? d (attempt d c args) b (args.map (Slot.typed (β := β))) with
        | none =>
          refine ⟨.error none, rfl, by simp, ?_⟩
          rintro n ⟨b', out, hbinds', hpassed⟩
          obtain rfl := hunique hbinds'
          obtain ⟨rs, hrs, -⟩ := settle_of_passed β hpassed
          cases hsettle.symm.trans hrs
        | some rs =>
          refine ⟨.ok _, rfl, ?_, ?_⟩
          · rintro s ⟨⟩
            exact ⟨rfl, rfl, b, hbinds, passed_of_settle hrest htakes hsettle⟩
          · rintro n ⟨b', out, hbinds', hpassed⟩
            obtain rfl := hunique hbinds'
            obtain ⟨rs', hrs, hdistance⟩ := settle_of_passed β hpassed
            obtain rfl := Option.some.inj (hsettle.symm.trans hrs)
            exact ⟨_, rfl, hdistance⟩

end

/-! ## Keeping the best -/

/-- A call is the first of least distance among some outcomes. -/
def IsFirst (rs : List (Except (Option Error) Selection)) (s : Selection) : Prop :=
  ∃ front back, rs = front ++ .ok s :: back ∧
    (∀ s', .ok s' ∈ front → s.distance < s'.distance) ∧
    ∀ s', .ok s' ∈ back → s.distance ≤ s'.distance

theorem IsFirst.append {rs : List (Except (Option Error) Selection)} {s : Selection}
    (h : IsFirst rs s) {r : Except (Option Error) Selection}
    (hr : ∀ s', r = .ok s' → s.distance ≤ s'.distance) : IsFirst (rs ++ [r]) s := by
  obtain ⟨front, back, rfl, hfront, hback⟩ := h
  refine ⟨front, back ++ [r], by simp, hfront, fun s' hs' => ?_⟩
  rcases List.mem_append.1 hs' with hs' | hs'
  · exact hback s' hs'
  · exact hr s' (List.mem_singleton.1 hs').symm

theorem IsFirst.distance_le {rs : List (Except (Option Error) Selection)} {s s' : Selection}
    (h : IsFirst rs s) (hs' : .ok s' ∈ rs) : s.distance ≤ s'.distance := by
  obtain ⟨front, back, rfl, hfront, hback⟩ := h
  rcases List.mem_append.1 hs' with hs' | hs'
  · exact Nat.le_of_lt (hfront s' hs')
  · rcases List.mem_cons.1 hs' with hs' | hs'
    · exact (Except.ok.inj hs' ▸ Nat.le_refl _)
    · exact hback s' hs'

/-- Of several outcomes, the first call of least distance is kept, if there is a call at all. -/
theorem Best.first_foldl (rs : List (Except (Option Error) Selection)) :
    ((rs.foldl Best.add {}).selection = none → ∀ s, .ok s ∉ rs) ∧
      ∀ s, (rs.foldl Best.add {}).selection = some s → IsFirst rs s := by
  induction rs using List.reverseRecOn with
  | nil => simp
  | append_singleton rs r ih =>
    obtain ⟨hnone, hsome⟩ := ih
    rw [List.foldl_append, List.foldl_cons, List.foldl_nil]
    generalize rs.foldl Best.add {} = best at hnone hsome
    cases r with
    | error e =>
      have hadd : (best.add (.error e)).selection = best.selection := by cases e <;> rfl
      rw [hadd]
      refine ⟨fun h s hs => ?_, fun s h => (hsome s h).append (by simp)⟩
      rcases List.mem_append.1 hs with hs | hs
      · exact hnone h s hs
      · simp at hs
    | ok new =>
      rw [Best.add]
      split
      · rename_i old hold
        have hfirst := hsome old hold
        split
        · rename_i hlt
          refine ⟨by simp, fun s hs => ?_⟩
          obtain rfl := Option.some.inj hs
          exact ⟨rs, [], rfl, fun s' hs' => Nat.lt_of_lt_of_le hlt (hfirst.distance_le hs'), by simp⟩
        · rename_i hle
          refine ⟨by simp [hold], fun s hs => ?_⟩
          obtain rfl := Option.some.inj (hold.symm.trans hs)
          exact hfirst.append fun s' hs' => Except.ok.inj hs' ▸ Nat.le_of_not_lt hle
      · rename_i hold
        refine ⟨by simp, fun s hs => ?_⟩
        obtain rfl := Option.some.inj hs
        exact ⟨rs, [], rfl, fun s' hs' => absurd hs' (hnone hold s'), by simp⟩

section

variable {m : Type → Type} [Monad m] [LawfulMonad m] {β : Type}

theorem tryAll_eq {bind : Binder m β} {explicit : List Ty} {offset : Nat} {arguments : List (Argument β)}
    {outcome : Candidate → Except (Option Error) Selection} {candidates : List Candidate}
    (h : ∀ c ∈ candidates, (tryCandidate d bind c explicit arguments offset).run = pure (outcome c))
    (best : Best) : tryAll d bind explicit arguments offset candidates best =
      pure ((candidates.map outcome).foldl Best.add best) := by
  induction candidates generalizing best with
  | nil => rfl
  | cons c candidates ih =>
    rw [tryAll, h c List.mem_cons_self, pure_bind, ih fun c hc => h c (List.mem_cons_of_mem _ hc)]
    rfl

/-- For arguments that have types, a method is chosen exactly if one is applicable. It is the first
    of those that are applicable at the least distance, and each of its parameters gets what is
    passed to it. -/
theorem select_typed (d : Directory) (bind : Binder m β) (name : String)
    (candidates : List Candidate) (explicit : List Ty) (args : List Expr) (offset : Nat)
    (hrest : ∀ c ∈ candidates, ∀ p ∈ c.method.params, p.isRest → ∃ t, p.type = .arrayOf t) :
    ∃ r, select d bind name candidates explicit (args.map .typed) offset = pure r ∧
      ((∃ s, r = .ok s) ↔ ∃ c ∈ candidates, ∃ n, ApplicableAt d explicit args c n) ∧
      ∀ s, r = .ok s → ∃ front c back, candidates = front ++ c :: back ∧
        s.method = c.method ∧ s.owner = c.owner ∧ s.args.length = c.method.params.length ∧
        (∃ b, Binds d explicit args c b ∧ Passed d b c.method.params args s.args s.distance) ∧
        (∀ c' ∈ front, ∀ n, ApplicableAt d explicit args c' n → s.distance < n) ∧
        ∀ c' ∈ back, ∀ n, ApplicableAt d explicit args c' n → s.distance ≤ n := by
  have hrun (c : Candidate) (hc : c ∈ candidates) :=
    run_tryCandidate (d := d) bind explicit args offset (hrest c hc)
  choose! outcome hpure hcall happlies using hrun
  have htried := tryAll_eq hpure {}
  obtain ⟨hnone, hsome⟩ := Best.first_foldl (candidates.map outcome)
  unfold select
  rw [htried, pure_bind]
  cases hbest : ((candidates.map outcome).foldl Best.add {}).selection with
  | none =>
    have hno : ¬ ∃ c ∈ candidates, ∃ n, ApplicableAt d explicit args c n := by
      rintro ⟨c, hc, n, happlicable⟩
      obtain ⟨s, hs, -⟩ := happlies c hc n happlicable
      exact hnone hbest s (hs ▸ List.mem_map_of_mem hc)
    split
    · rename_i heq
      cases heq
    all_goals exact ⟨_, rfl, by simpa using hno, by simp⟩
  | some s =>
    obtain ⟨front, back, hsplit, hfront, hback⟩ := hsome s hbest
    obtain ⟨before, rest, rfl, rfl, hmap⟩ := List.map_eq_append_iff.1 hsplit
    obtain ⟨c, after, rfl, hc, rfl⟩ := List.map_eq_cons_iff.1 hmap
    obtain ⟨hmethod, howner, b, hbinds, hpassed⟩ := hcall c (by simp) s hc
    refine ⟨.ok s, rfl, ⟨fun _ => ⟨c, by simp, _, b, _, hbinds, hpassed⟩, fun _ => ⟨s, rfl⟩⟩, ?_⟩
    rintro s' ⟨⟩
    refine ⟨before, c, after, rfl, hmethod, howner, hpassed.length_eq, ⟨b, hbinds, hpassed⟩, ?_, ?_⟩
    · intro c' hc' n happlicable
      obtain ⟨s', hs', rfl⟩ := happlies c' (by simp [hc']) n happlicable
      exact hfront s' (hs' ▸ List.mem_map_of_mem hc')
    · intro c' hc' n happlicable
      obtain ⟨s', hs', rfl⟩ := happlies c' (by simp [hc']) n happlicable
      exact hback s' (hs' ▸ List.mem_map_of_mem hc')

end

/-- A method of the library that joins any number of values. -/
def concat : Candidate :=
  ⟨Library.static "Concat" [Library.rest "args" (.arrayOf .object)] .string .concat, .string⟩

/-- Two values are collected in one argument. -/
theorem select_typed_concat : ∃ s, select (m := Id) ⟨.empty, [], false⟩ (fun _ _ _ => .ok none) "Concat"
    [concat] [] ([.default .object, .default .object].map (.typed (β := Empty))) 0 = pure (.ok s) ∧
      s.args.length = 1 := by
  obtain ⟨r, hr, hsome, hs⟩ := select_typed (m := Id) (β := Empty) ⟨.empty, [], false⟩
    (fun _ _ _ => .ok none) "Concat" [concat] [] [.default .object, .default .object] 0
    (by simp [concat, Library.static, Library.method, Method.of, Method.asStatic, Library.rest])
  have hfits : Fits ⟨.empty, [], false⟩ (Ty.object.substitute []) (.default .object)
      (.default .object) 0 := ⟨rfl, .inl rfl, .inl rfl⟩
  have hpassed : Passed ⟨.empty, [], false⟩ [] ([] ++ [Library.rest "args" (.arrayOf .object)])
      ([] ++ [Expr.default .object, .default .object]) _ _ :=
    .collected rfl rfl (by simp) rfl .nil
      (.cons (b := (_, 0)) hfits (.cons (b := (_, 0)) hfits .nil))
  obtain ⟨s, rfl⟩ := hsome.2 ⟨concat, by simp, _, [], _, ⟨rfl, by rintro g ⟨⟩⟩, hpassed⟩
  obtain ⟨front, c, back, hsplit, -, -, hlength, -⟩ := hs s rfl
  have hc : c ∈ [concat] := by simp [hsplit]
  rw [List.mem_singleton.1 hc] at hlength
  exact ⟨s, hr, hlength⟩

end Overload

end Scriptlet
