import Scriptlet.Proofs.Expr.Sameness
import Scriptlet.Simplification.Simplifier

/-!
# Canonical texts of the same expressions

Two expressions that are the same (`Expr.same`) should have one canonical text, but each of
the two notions takes variables in its own way. For sameness, parameters of lambdas are taken
by their numbers, and locals of blocks and variables of handlers by their names and types. A
text has the place of the declaration that a number belongs to, whatever declares it.

Both agree where an expression is *clear* (`Expr.clear`): the number of a variable belongs to
a parameter of a lambda around it, or else to the innermost local with its name and type, if
there is one (`Enclosure.resolves`). That is so unless a local is used within the scope of
another one with its name and type. Furthermore the signature of a method has to tell its
name and its owner (`Method.hasPlainSignature`). The same clear expressions have one
canonical text (`Expr.canonical_of_same`), and so have those that are found equal once they
are simplified (`Simplifier.canonical_of_equal`).
-/

namespace Scriptlet

/-! ## Enclosures -/

namespace Enclosure

/-- The place of the innermost enclosure that has an index, and that index. -/
def place? (index? : Enclosure → Option Nat) : List Enclosure → Option (Nat × Nat)
  | [] => none
  | b :: outer =>
    match index? b with
    | some i => some (outer.length, i)
    | none => place? index? outer

/-- The variable with a number. -/
def numbered? (id : Nat) (b : Enclosure) : Option Nat := b.declared.findIdx? (·.id == id)

/-- The parameter of a lambda with a number. -/
def parameter? (id : Nat) (b : Enclosure) : Option Nat :=
  if b.isLambda then b.numbered? id else none

/-- The local with the name and the type of a variable. -/
def local? (v : Variable) (b : Enclosure) : Option Nat :=
  if b.isLambda then none else b.declared.findIdx? (·.alike v)

/-- Whether the number of a variable belongs to a parameter, or else to the innermost local
    with its name and type. -/
def resolves (s : List Enclosure) (v : Variable) : Bool :=
  place? (numbered? v.id) s == (place? (parameter? v.id) s).or (place? (local? v) s)

/-- What counts of an enclosure: of a lambda nothing else, otherwise the names and types of the
    locals. -/
def kind (b : Enclosure) : Bool × List Variable :=
  (b.isLambda, if b.isLambda then [] else b.declared.map (·.bare))

/-- Enclosures of one sort; locals have the same names and types. -/
structure Alike (b c : Enclosure) : Prop where
  isLambda : b.isLambda = c.isLambda
  locals : b.isLambda = false → b.declared.map (·.bare) = c.declared.map (·.bare)

theorem alike_of_kind {b c : Enclosure} (h : b.kind = c.kind) : Alike b c := by
  obtain ⟨hlambda, hlocals⟩ := Prod.ext_iff.1 h
  refine ⟨hlambda, fun hb => ?_⟩
  have hc : c.isLambda = false := hlambda.symm.trans hb
  simpa [kind, hb, hc] using hlocals

theorem alike_of_map_kind {s s' : List Enclosure} (h : s.map kind = s'.map kind) :
    List.Forall₂ Alike s s' := by
  rw [← List.forall₂_eq_eq_eq, List.forall₂_map_left_iff, List.forall₂_map_right_iff] at h
  exact h.imp fun _ _ => alike_of_kind

theorem findIdx?_ids (id : Nat) (b : Enclosure) : b.ids.findIdx? (· == id) = b.numbered? id := by
  rw [ids, List.findIdx?_map]
  rfl

theorem place?_numbered (id : Nat) (s : List Enclosure) :
    place? (numbered? id) s = (all s).place? id := by
  induction s with
  | nil => rfl
  | cons b s ih =>
    rw [place?, all, List.map_cons, Binders.place?, findIdx?_ids, List.length_map, ih]
    rfl

theorem lambdas_cons_lambda {b : Enclosure} (h : b.isLambda = true) (s : List Enclosure) :
    lambdas (b :: s) = b.ids :: lambdas s := by
  simp [lambdas, all, h]

theorem lambdas_cons_local {b : Enclosure} (h : b.isLambda = false) (s : List Enclosure) :
    lambdas (b :: s) = lambdas s := by
  simp [lambdas, h]

theorem lambdas_append (s s' : List Enclosure) : lambdas (s ++ s') = lambdas s ++ lambdas s' := by
  simp [lambdas, all]

theorem all_append (s s' : List Enclosure) : all (s ++ s') = all s ++ all s' :=
  List.map_append

variable {s s' : List Enclosure} {v w : Variable}

theorem findIdx?_alike (v : Variable) (vs : List Variable) :
    vs.findIdx? (·.alike v) = (vs.map (·.bare)).findIdx? (· = v.bare) := by
  rw [List.findIdx?_map]
  congr 1
  funext w
  rw [Bool.eq_iff_iff, Variable.alike_iff, Function.comp_apply, decide_eq_true_eq]

/-- Locals with one name and type are found in the same place. -/
theorem place?_local (hs : List.Forall₂ Alike s s') (h : v.alike w) :
    place? (local? v) s = place? (local? w) s' := by
  have hindex {b c : Enclosure} (hbc : Alike b c) : b.local? v = c.local? w := by
    rw [local?, local?, ← hbc.isLambda]
    cases hb : b.isLambda with
    | true => rfl
    | false =>
      rw [findIdx?_alike, findIdx?_alike, hbc.locals hb, (Variable.alike_iff v w).1 h]
  induction hs with
  | nil => rfl
  | cons hbc hs ih => rw [place?, place?, hindex hbc, hs.length_eq, ih]

theorem lt_of_place? {id : Nat} {bs : Binders} {p : Nat × Nat} (h : bs.place? id = some p) :
    p.1 < bs.length := by
  induction bs with
  | nil => cases h
  | cons frame outer ih =>
    rw [Binders.place?] at h
    split at h
    · cases h
      exact Nat.lt_succ_self _
    · exact (ih h).trans (Nat.lt_succ_self _)

theorem length_all (hs : List.Forall₂ Alike s s') : (all s).length = (all s').length := by
  rw [all, all, List.length_map, List.length_map, hs.length_eq]

theorem length_lambdas (hs : List.Forall₂ Alike s s') :
    (lambdas s).length = (lambdas s').length := by
  induction hs with
  | nil => rfl
  | @cons b c s s' hbc hs ih =>
    cases hb : b.isLambda with
    | false => rw [lambdas_cons_local hb, lambdas_cons_local (hbc.isLambda ▸ hb), ih]
    | true =>
      rw [lambdas_cons_lambda hb, lambdas_cons_lambda (hbc.isLambda ▸ hb), List.length_cons,
        List.length_cons, ih]

/-- Parameters that are found in the same place among the lambdas are found in the same place
    among all enclosures. -/
theorem place?_parameter (hs : List.Forall₂ Alike s s')
    (h : (lambdas s).place? v.id = (lambdas s').place? w.id) :
    place? (parameter? v.id) s = place? (parameter? w.id) s' := by
  induction hs with
  | nil => rfl
  | @cons b c s s' hbc hs ih =>
    have hlength := length_lambdas hs
    cases hb : b.isLambda with
    | false =>
      have hc : c.isLambda = false := hbc.isLambda ▸ hb
      rw [lambdas_cons_local hb, lambdas_cons_local hc] at h
      rw [place?, place?, parameter?, parameter?, if_neg (by simp [hb]), if_neg (by simp [hc]),
        ih h]
    | true =>
      have hc : c.isLambda = true := hbc.isLambda ▸ hb
      rw [lambdas_cons_lambda hb, lambdas_cons_lambda hc, Binders.place?, Binders.place?,
        findIdx?_ids, findIdx?_ids] at h
      rw [place?, place?, parameter?, parameter?, if_pos hb, if_pos hc]
      -- what is found in the outer lambdas is not found as deep as in the inner one
      cases hv : b.numbered? v.id with
      | none =>
        cases hw : c.numbered? w.id with
        | none =>
          rw [hv, hw] at h
          exact ih h
        | some j =>
          rw [hv, hw] at h
          exact absurd (lt_of_place? h) (by simp [hlength])
      | some i =>
        cases hw : c.numbered? w.id with
        | none =>
          rw [hv, hw] at h
          exact absurd (lt_of_place? h.symm) (by simp [hlength])
        | some j =>
          rw [hv, hw] at h
          have hij : i = j := by simpa [hlength] using h
          rw [hij, hs.length_eq]

theorem isSome_parameter (id : Nat) (s : List Enclosure) :
    (place? (parameter? id) s).isSome = ((lambdas s).place? id).isSome := by
  induction s with
  | nil => rfl
  | cons b s ih =>
    cases hb : b.isLambda with
    | false => rw [lambdas_cons_local hb, place?, parameter?, if_neg (by simp [hb]), ih]
    | true =>
      rw [lambdas_cons_lambda hb, Binders.place?, findIdx?_ids, place?, parameter?, if_pos hb]
      cases b.numbered? id with
      | none => exact ih
      | some i => rfl

/-- Corresponding variables have one canonical text. -/
theorem text_of_corresponds (hs : List.Forall₂ Alike s s') (hv : resolves s v)
    (hw : resolves s' w) (h : v.corresponds (lambdas s) (lambdas s') w) :
    v.text .canonical (all s) = w.text .canonical (all s') := by
  have hv := (place?_numbered v.id s).symm.trans (eq_of_beq hv)
  have hw := (place?_numbered w.id s').symm.trans (eq_of_beq hw)
  have hsome := isSome_parameter v.id s
  unfold Variable.corresponds at h
  split at h
  next p q hp hq =>
    -- parameters of lambdas on both sides; locals are not looked at
    have hparameter := place?_parameter hs (hp.trans ((congrArg some (eq_of_beq h)).trans hq.symm))
    obtain ⟨r, hr⟩ := Option.isSome_iff_exists.1 (hsome.trans (hp ▸ rfl))
    rw [← hparameter, hr, Option.some_or] at hw
    rw [hr, Option.some_or] at hv
    simp only [Variable.text, hv, hw]
  next hp hq =>
    -- locals, or free variables, of one name and type
    have hparameter := place?_parameter hs (hp.trans hq.symm)
    have hname : v.name = w.name := by simpa [Variable.alike] using (Bool.and_eq_true_iff.1 h).1
    have hnone : place? (parameter? v.id) s = none := by simpa [hp] using hsome
    rw [← hparameter, hnone, Option.none_or, ← place?_local hs h] at hw
    rw [hnone, Option.none_or] at hv
    simp only [Variable.text, hv, hw, hname]
  next => cases h

end Enclosure

/-! ## Data of nodes -/

/-- Whether the signature of a method tells its name and its owner. -/
def Method.hasPlainSignature (m : Method) : Bool :=
  '.' ∉ m.name.toList ∧ '(' ∉ m.name.toList ∧ '(' ∉ m.owner.text.toList

/-- Texts that are followed by a character that they do not have. -/
theorem append_cons_inj {c : Char} {xs ys zs ws : List Char} (hx : c ∉ xs) (hy : c ∉ ys)
    (h : xs ++ c :: zs = ys ++ c :: ws) : xs = ys ∧ zs = ws := by
  have hlength : xs.length = ys.length := by
    have := congrArg (List.idxOf c) h
    simpa [List.idxOf_append_of_notMem hx, List.idxOf_append_of_notMem hy] using this
  simpa using List.append_inj h hlength

theorem Method.eq_of_same {m n : Method} (hm : m.hasPlainSignature)
    (hn : n.hasPlainSignature) (h : m.same n) :
    m.name = n.name ∧ m.owner.text = n.owner.text := by
  obtain ⟨hm₁, hm₂, hm₃⟩ := of_decide_eq_true hm
  obtain ⟨hn₁, hn₂, hn₃⟩ := of_decide_eq_true hn
  have hsignature := congrArg String.toList (eq_of_beq h)
  simp only [signature, String.toList_append] at hsignature
  have hfront : m.owner.text.toList ++ '.' :: m.name.toList =
      n.owner.text.toList ++ '.' :: n.name.toList := by
    refine (append_cons_inj ?_ ?_ (by simpa using hsignature)).1
    · simp [hm₂, hm₃]
    · simp [hn₂, hn₃]
  -- the name stands behind the last point
  have hback := congrArg List.reverse hfront
  simp only [List.reverse_append, List.reverse_cons, List.append_assoc,
    List.singleton_append] at hback
  obtain ⟨hname, howner⟩ := append_cons_inj (by simpa using hm₁) (by simpa using hn₁) hback
  exact ⟨String.toList_inj.1 (List.reverse_inj.1 hname),
    String.toList_inj.1 (List.reverse_inj.1 howner)⟩

theorem callText_of_same {m n : Method} (hm : m.hasPlainSignature) (hn : n.hasPlainSignature)
    (h : m.same n) (receiver : Option String) (args : List String) (ts : List Ty) :
    callText m receiver args ts = callText n receiver args ts := by
  obtain ⟨hname, howner⟩ := Method.eq_of_same hm hn h
  simp only [callText, hname, howner]

theorem declarations_of_types {vs ws : List Variable} (h : vs.map (·.type) = ws.map (·.type))
    (depth : Nat) : declarations .canonical depth vs = declarations .canonical depth ws := by
  have htypes (us : List Variable) : declarations .canonical depth us =
      (us.map (·.type)).zipIdx.map fun p => p.1.text ++ " " ++ placeText depth p.2 := by
    rw [declarations, List.zipIdx_map, List.map_map]
    rfl
  rw [htypes, htypes, h]

theorem Constant.text_of_equivalent {c d : Constant} (h : c.equivalent d) :
    c.text .canonical = d.text .canonical := by
  cases c <;> cases d <;> simp_all [equivalent, same, text]
  exact Number.canonical_of_equivalent h

/-- Handlers with one mark are written alike. -/
theorem handlerText_of_mark {h k : Handler Expr}
    (hmark : Mark.handler h.type (h.binder.map fun v => (v.name, v.type)) =
      .handler k.type (k.binder.map fun v => (v.name, v.type))) (depth : Nat) :
    handlerText .canonical depth h = handlerText .canonical depth k := by
  obtain ⟨htype, hbinder⟩ := Mark.handler.inj hmark
  funext body
  rw [handlerText, handlerText, htype]
  cases hh : h.binder <;> cases hk : k.binder <;> simp_all

theorem map_congr_map {α β γ : Type} {f : α → β} {g : α → γ} (hfg : ∀ a b, f a = f b → g a = g b)
    {as bs : List α} (h : as.map f = bs.map f) : as.map g = bs.map g := by
  induction as generalizing bs with
  | nil => cases bs <;> simp_all
  | cons a as ih =>
    cases bs with
    | nil => simp at h
    | cons b bs =>
      obtain ⟨hab, h⟩ := List.cons.inj h
      rw [List.map_cons, List.map_cons, hfg a b hab, ih h]

theorem map_eq_map_of_forall₂ {α β γ δ : Type} {R : α → β → Prop} {f : α → γ} {g : β → γ}
    {f' : α → δ} {g' : β → δ} {as : List α} {bs : List β} (h : List.Forall₂ R as bs)
    (hmap : as.map f = bs.map g)
    (hR : ∀ a ∈ as, ∀ b ∈ bs, R a b → f a = g b → f' a = g' b) : as.map f' = bs.map g' := by
  induction h with
  | nil => rfl
  | @cons a b as bs hab _ ih =>
    obtain ⟨hfg, hmap⟩ := List.cons.inj hmap
    rw [List.map_cons, List.map_cons, hR a List.mem_cons_self b List.mem_cons_self hab hfg,
      ih hmap fun a ha b hb => hR a (List.mem_cons_of_mem _ ha) b (List.mem_cons_of_mem _ hb)]

namespace Expr

/-- Whether what a node itself stands for can be told in either way. -/
def clearNode (s : List Enclosure) : Expr → Bool
  | parameter v => Enclosure.resolves s v
  | call m _ _ _ _ => m.hasPlainSignature
  | _ => true

/-- Whether what the variables and methods in an expression stand for can be told in either
    way. -/
def clear (s : List Enclosure) (e : Expr) : Bool :=
  e.foldIn (· ++ ·) (fun s e parts => e.clearNode s && parts.all id) s

variable {a b e : Expr} {s s' : List Enclosure}

theorem clear_iff : e.clear s ↔ e.clearNode s ∧ ∀ p ∈ e.parts, p.1.clear (p.2 ++ s) := by
  rw [clear, foldIn_eq, Bool.and_eq_true, List.all_map, List.all_eq_true]
  rfl

theorem length_scopes (e : Expr) : e.scopes.length = e.children.length := by
  cases e <;> simp [scopes, children]

theorem map_snd_parts (e : Expr) : e.parts.map (·.2) = e.scopes := by
  rw [parts, List.map_snd_zip (length_scopes e).le]

theorem length_parts (e : Expr) : e.parts.length = e.children.length := by
  rw [parts, List.length_zip, length_scopes, Nat.min_self]

/-- Nodes that are the same but for their parts enclose them in the same way. -/
theorem kinds_of_marks (hform : a.ctorIdx = b.ctorIdx) (hmarks : a.marks = b.marks)
    (hlength : a.children.length = b.children.length) :
    a.scopes.map (·.map Enclosure.kind) = b.scopes.map (·.map Enclosure.kind) := by
  have hconst {α β γ : Type} {as : List α} {bs : List β} (c : γ) (h : as.length = bs.length) :
      as.map (fun _ => c) = bs.map fun _ => c := by
    rw [List.map_const', List.map_const', h]
  have hplain {e : Expr} (h : e.scopes = e.children.map fun _ => []) :
      e.scopes.map (·.map Enclosure.kind) = e.children.map fun _ => [] := by
    rw [h, List.map_map]
    rfl
  cases a <;> cases b <;> first | (cases hform; done) | clear hform
  case block.block vs body t vs' body' t' =>
    have hlocals : vs.map (·.bare) = vs'.map (·.bare) :=
      map_congr_map (fun v w h => by simpa [Variable.bare] using h) (List.cons.inj hmarks).2
    simp only [scopes, List.map_map, Function.comp_def, List.map_singleton, Enclosure.kind, hlocals]
    exact hconst _ hlength
  case tryCatch.tryCatch body handlers last body' handlers' last' =>
    have hhandlers := congrArg List.length hmarks
    simp only [marks, List.length_map] at hhandlers
    have hlast : last.toList.length = last'.toList.length := by
      simpa [children, hhandlers] using hlength
    simp only [scopes, List.map_append, List.map_cons, List.map_map, Function.comp_def,
      hconst _ hlast]
    congr 2
    refine map_congr_map (fun h k hmark => ?_) hmarks
    obtain ⟨-, hbinder⟩ := Mark.handler.inj hmark
    cases hh : h.binder <;> cases hk : k.binder <;> simp_all [Enclosure.kind, Variable.bare]
  case lambda.lambda => rfl
  all_goals
    rw [hplain rfl, hplain rfl]
    exact hconst _ hlength

/-- Nodes that are the same but for their parts have one canonical text, if their parts have. -/
theorem textWith_of_sameNode (hs : List.Forall₂ Enclosure.Alike s s') (ha : a.clearNode s)
    (hb : b.clearNode s')
    (h : sameNode (Enclosure.lambdas s) (Enclosure.lambdas s') a b) :
    a.textWith .canonical (Enclosure.all s) = b.textWith .canonical (Enclosure.all s') := by
  obtain ⟨hform, hmarks, hconstant, hparameter⟩ := sameNode_iff.1 h
  have hdepth := Enclosure.length_all hs
  have hdeclarations {vs ws : List Variable} (h : vs.map (·.type) = ws.map (·.type)) :
      declarations .canonical (Enclosure.all s).length vs =
        declarations .canonical (Enclosure.all s').length ws := by
    rw [hdepth]
    exact declarations_of_types h _
  cases a <;> cases b <;> first | (cases hform; done) | clear hform
  all_goals funext texts
  case constant.constant x y => exact Constant.text_of_equivalent (hconstant x y rfl rfl)
  case parameter.parameter v w =>
    exact Enclosure.text_of_corresponds hs ha hb (hparameter v w rfl rfl)
  case call.call m receiver _ ts _ m' receiver' _ ts' _ =>
    obtain ⟨-, hm, hreceiver, hts⟩ : _ ∧ m.signature = m'.signature ∧
      receiver.isSome = receiver'.isSome ∧ ts.map Mark.type = ts'.map Mark.type := by
        simpa [marks] using hmarks
    obtain rfl := (List.map_inj_right fun _ _ => Mark.type.inj).1 hts
    simp only [textWith, hreceiver, callText_of_same ha hb (beq_iff_eq.2 hm)]
  case block.block vs _ _ vs' _ _ =>
    have htypes : vs.map (·.type) = vs'.map (·.type) :=
      map_congr_map (fun v w h => (Mark.variable.inj h).2) (List.cons.inj hmarks).2
    simp only [textWith, hdeclarations htypes]
  case lambda.lambda params _ _ params' _ _ =>
    have htypes : params.map (·.type) = params'.map (·.type) :=
      map_congr_map (fun v w h => Mark.type.inj h) (List.cons.inj hmarks).2
    simp only [textWith, hdeclarations htypes]
  case memberInit.memberInit _ bindings _ _ bindings' _ =>
    have hnames : bindings.map (·.member.name) = bindings'.map (·.member.name) :=
      map_congr_map (fun x y h => Mark.name.inj h) (List.cons.inj hmarks).2
    simp only [textWith, hnames]
  case member.member _ m owner _ _ m' owner' _ =>
    obtain ⟨-, hname, rfl⟩ : _ ∧ m.name = m'.name ∧ owner = owner' := by
      simpa [marks] using hmarks
    simp only [textWith, hname]
  case loop.loop _ l c _ l' c' =>
    obtain ⟨hl, hc⟩ := List.cons.inj hmarks
    have hc : c.map (·.name) = c'.map (·.name) := by cases c <;> cases c' <;> simp_all
    simp only [textWith, Mark.name.inj hl, hc]
  case jump.jump kind l _ kind' l' _ =>
    obtain ⟨rfl, hname⟩ : kind = kind' ∧ l.name = l'.name := by simpa [marks] using hmarks
    simp only [textWith, hname]
  case label.label l _ _ l' _ _ =>
    obtain ⟨-, hname⟩ : _ ∧ l.name = l'.name := by simpa [marks] using hmarks
    simp only [textWith, hname]
  case switch.switch _ cases _ _ cases' _ =>
    have hcounts : cases.map (·.tests.length) = cases'.map (·.tests.length) :=
      map_congr_map (fun x y h => Mark.tests.inj h) hmarks
    simp only [textWith, hcounts]
  case tryCatch.tryCatch _ handlers _ _ handlers' _ =>
    have htexts : handlers.map (handlerText .canonical (Enclosure.all s).length) =
        handlers'.map (handlerText .canonical (Enclosure.all s').length) := by
      rw [hdepth]
      exact map_congr_map (fun x y h => handlerText_of_mark h _) hmarks
    have hlength : handlers.length = handlers'.length := by
      simpa using congrArg List.length htexts
    simp only [textWith, htexts, hlength]
  case new.new =>
    cases (List.cons.inj hmarks).1
    rfl
  case throw.throw | listInit.listInit => rfl
  all_goals
    cases hmarks
    rfl

/-- The same clear expressions have one canonical text within enclosures that are alike. By the
    parts of the first one: enclosures of one sort join those on either side, which stay
    alike. -/
theorem print_of_sameIn (hs : List.Forall₂ Enclosure.Alike s s') (ha : a.clear s)
    (hb : b.clear s') (h : sameIn (Enclosure.lambdas s) (Enclosure.lambdas s') a b) :
    print .canonical (Enclosure.all s) a = print .canonical (Enclosure.all s') b := by
  induction a using children_induction generalizing b s s' with
  | node a ih =>
    obtain ⟨ha, has⟩ := clear_iff.1 ha
    obtain ⟨hb, hbs⟩ := clear_iff.1 hb
    obtain ⟨h, hparts⟩ := sameIn_iff.1 h
    obtain ⟨hform, hmarks, -⟩ := sameNode_iff.1 h
    have hlength : a.children.length = b.children.length := by
      simpa [length_parts] using hparts.length_eq
    have hkinds := kinds_of_marks hform hmarks hlength
    rw [← map_snd_parts, ← map_snd_parts, List.map_map, List.map_map] at hkinds
    rw [print_eq, print_eq, textWith_of_sameNode hs ha hb h]
    congr 1
    refine map_eq_map_of_forall₂ hparts hkinds fun p hp q hq hsame hkind => ?_
    rw [← Enclosure.all_append, ← Enclosure.all_append]
    rw [← Enclosure.lambdas_append, ← Enclosure.lambdas_append] at hsame
    exact ih p.1 (mem_children_of_mem_parts hp)
      (List.rel_append (Enclosure.alike_of_map_kind hkind) hs) (has p hp) (hbs q hq) hsame

/-- Clear expressions that are the same have one canonical text. -/
theorem canonical_of_same {a b : Expr} (ha : a.clear []) (hb : b.clear []) (h : a.same b) :
    a.canonical = b.canonical :=
  print_of_sameIn .nil ha hb h

/-- A block within another one that has a local of the same name and type; one of the two is
    its value. -/
def shadowed (v : Variable) : Expr :=
  block [⟨1, "y", .int⟩] [block [⟨2, "y", .int⟩] [parameter v] .int] .int

-- the outer local is not clear within the inner block, and is taken for the inner one
example : (shadowed ⟨1, "y", .int⟩).same (shadowed ⟨2, "y", .int⟩) = true ∧
    (shadowed ⟨1, "y", .int⟩).canonical ≠ (shadowed ⟨2, "y", .int⟩).canonical ∧
    (shadowed ⟨1, "y", .int⟩).clear [] = false ∧ (shadowed ⟨2, "y", .int⟩).clear [] = true := by
  decide

end Expr

/-- Expressions that are found equal have one canonical text, if they are clear once they are
    simplified. -/
theorem Simplifier.canonical_of_equal {s : Simplifier} {a b a' b' : Expr}
    (ha : s.simplify a = .ok a') (hb : s.simplify b = .ok b') (hclear : a'.clear [])
    (hclear' : b'.clear []) (h : s.equal a b = .ok true) : s.canonical a = s.canonical b := by
  have hsame : a'.same b' = true := by
    simpa [equal, ha, hb, bind, Except.bind, pure, Except.pure] using h
  rw [canonical, canonical, ha, hb]
  exact congrArg Except.ok (Expr.canonical_of_same hclear hclear' hsame)

end Scriptlet
