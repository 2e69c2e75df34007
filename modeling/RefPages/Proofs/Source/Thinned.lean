import RefPages.Proofs.Source.Distinct
import RefPages.Proofs.Source.Likeness

/-!
# Lookups in trees with fewer comments

What is looked up in a node stays the same when spare comments are left out of it. For functions,
declarations and the members of classes that is so since lookups follow such trees
(`isLikeness_thins`). The rest reads more of a node: the names in a type, and the types and texts of
parameters and members. The names are first written with functions on lists, since what a list
function does with the children of a node is what `Drops` tells about:

    candidates n  =  the names of its name and of its arguments     of a generic type
                     the names of its children                      of parentheses
-/

namespace RefPages.Source

open Syntax

/-! ### Likeness -/

/-- Lookups do not see that spare comments are missing. -/
theorem isLikeness_thins : IsLikeness Node.Thins (fun n => n.isPlain = true) where
  kind h := h.kind
  plain h := h
  comment h hkind := h.text (by rw [hkind]; rfl)
  name? h := rel_imp h.name? fun _ _ hcd => ⟨hcd.1.kind, hcd.2⟩
  value? h := h.field? .value
  declaration? h := h.field? .declaration
  arguments? h := rel_imp (h.field? .arguments) fun _ _ hcd =>
    hcd.drops.imp (fun _ _ hc => hc.toThins) fun _ hc => hc.1
  first? := by
    intro n m h hkind
    have hwraps : n.host.wraps = true := by
      rcases hkind with hkind | hkind | hkind <;> rw [Node.host, hkind] <;> rfl
    exact rel_imp (h.head?_named hwraps) fun _ _ hcd => hcd.toThins
  parts h _ := h.drops.imp (fun _ _ hc => hc.toThins) fun _ hc => hc.1
  statements h hkind := h.thinsAll_named (by simp [Host.lists, Node.host, hkind])
  members h := rel_imp h.body? fun _ _ hcd => hcd.1.thinsAll_named hcd.2
  hides h := h.drops.any_eq
    (fun _ _ hcd => hidesMethod_congr hcd.kind fun hkind => hcd.text (by rw [hkind]; rfl))
    fun c hc => by rw [hidesMethod, hc.1]

/-- The function in a value stays the one that it was. -/
theorem functionIn?_thins {n m : Node} (h : n.Thins m) :
    Option.Rel Node.Thins (functionIn? n) (functionIn? m) :=
  isLikeness_thins.functionIn?_rel h

/-! ### Names in types -/

theorem candidatesOfName_eq (ns : List Node) :
    candidatesOfName ns =
      ((ns.find? fun n => n.role? == some .name).map candidates).getD [] := by
  induction ns with
  | nil => rfl
  | cons n ns ih =>
    rw [candidatesOfName, List.find?_cons]
    cases hrole : n.role? == some .name with
    | true => rfl
    | false => exact ih

theorem candidatesOfAll_eq (ns : List Node) : candidatesOfAll ns = ns.flatMap candidates := by
  induction ns with
  | nil => rfl
  | cons n ns ih => rw [candidatesOfAll, List.flatMap_cons, ih]

theorem candidatesOfArguments_eq (ns : List Node) :
    candidatesOfArguments ns = ((ns.find? fun n => n.role? == some .typeArguments).map fun list =>
      list.children.flatMap candidates).getD [] := by
  induction ns with
  | nil => rfl
  | cons n ns ih =>
    obtain ⟨kind, role?, text, children⟩ := n
    rw [candidatesOfArguments, List.find?_cons, candidatesOfAll_eq, Node.role?_mk]
    cases hrole : role? == some .typeArguments with
    | true => rfl
    | false => exact ih

/-- One equation for the candidates of a type, by its kind. -/
theorem candidates_eq (n : Node) :
    candidates n = match n.kind with
      | .typeIdentifier => [n.text]
      | .nestedTypeIdentifier => [afterLastDot n.text]
      | .genericType => ((n.field? .name).map candidates).getD [] ++
          ((n.field? .typeArguments).map fun list => list.children.flatMap candidates).getD []
      | .parenthesizedType => n.children.flatMap candidates
      | _ => [] := by
  obtain ⟨kind, role?, text, children⟩ := n
  cases kind with
  | genericType =>
    show candidatesOfName children ++ candidatesOfArguments children = _
    rw [candidatesOfName_eq, candidatesOfArguments_eq]
    rfl
  | parenthesizedType => exact candidatesOfAll_eq children
  | _ => rfl

theorem candidates_of_comment {n : Node} (h : n.kind = .comment) : candidates n = [] := by
  rw [candidates_eq, h]

/-- Types that differ in comments have the same candidates. -/
theorem candidates_thins {n m : Node} (h : n.Thins m) : candidates n = candidates m := by
  rw [candidates_eq n, candidates_eq m, h.kind]
  -- comments among arguments have no candidates
  have hall : ∀ {list list' : Node}, list.Thins list' → sizeOf list ≤ sizeOf n →
      list.children.flatMap candidates = list'.children.flatMap candidates := by
    intro list list' hlists hle
    refine hlists.drops.flatMap_eq (fun c hc d hcd => ?_) fun c hc => candidates_of_comment hc.1
    have hsmaller := Node.sizeOf_lt_of_mem_children hc
    exact candidates_thins hcd.toThins
  cases hkind : n.kind with
  | typeIdentifier | nestedTypeIdentifier =>
    have htext : m.text = n.text := h.text (by rw [hkind]; rfl)
    rw [htext]
  | genericType =>
    have hname : (n.field? .name).map candidates = (m.field? .name).map candidates := by
      refine map_eq_of_rel (h.field? .name) fun c hc d hcd => ?_
      have hsmaller := Node.sizeOf_lt_of_field? hc
      exact candidates_thins hcd
    have harguments : (n.field? .typeArguments).map (fun list => list.children.flatMap candidates) =
        (m.field? .typeArguments).map fun list => list.children.flatMap candidates := by
      refine map_eq_of_rel (h.field? .typeArguments) fun list hlist list' hlists => ?_
      exact hall hlists (Nat.le_of_lt (Node.sizeOf_lt_of_field? hlist))
    dsimp only
    rw [hname, harguments]
  | parenthesizedType => exact hall h (Nat.le_refl _)
  | _ => rfl
termination_by sizeOf n

/-- The names of the interfaces that an interface extends. -/
theorem baseNames_thins {n m : Node} (h : n.Thins m) : baseNames n = baseNames m := by
  have hclauses : List.Forall₂ Node.Thins (n.named.filter fun c => c.is .extendsClause)
      (m.named.filter fun c => c.is .extendsClause) := by
    refine h.named.forall₂_filter (fun c d hcd => hcd.is_eq _) fun c hc => ?_
    rw [Node.is, hc]
    rfl
  rw [baseNames, baseNames, List.filterMap_flatMap, List.filterMap_flatMap]
  refine flatMap_eq_of_forall₂ hclauses fun c d hcd => ?_
  refine hcd.named.filterMap_eq (fun b b' hb => ?_) fun b hb => ?_
  · rw [candidates_thins hb]
  · rw [candidates_of_comment hb]
    rfl

/-! ### Annotations and parameters -/

/-- The type in the annotation of a node. -/
theorem annotated?_thins {n m : Node} (h : n.Thins m) {role : Field}
    (hrole : role = .type ∨ role = .returnType) :
    Option.Rel (fun c d => c.Thins d ∧ d.text = c.text) ((n.field? role).bind annotated?)
      ((m.field? role).bind annotated?) := by
  refine rel_bind (h.field?_in role) fun a _ b hab => ?_
  obtain ⟨hin, ha⟩ := hab
  have hannotates : a.host.annotates = true := by
    simp only [Host.annotates, Node.host, ha, Bool.or_eq_true, beq_iff_eq, Option.some.injEq]
    tauto
  refine rel_imp (hin.toThins.head?_named (Host.wraps_of_annotates hannotates)) fun c d hcd => ?_
  exact ⟨hcd.toThins, hcd.shown (Host.shows_of_annotates hannotates)⟩

/-- The text of an annotation is the same, as texts that are shown are kept. -/
theorem ascribedText_thins {n m : Node} (h : n.Thins m) :
    ascribedText (n.field? .type) = ascribedText (m.field? .type) := by
  unfold ascribedText
  rcases none_or_some_of_rel (annotated?_thins h (.inl rfl)) with
    ⟨hn, hm⟩ | ⟨c, d, hn, hm, -, htext⟩
  · rw [hn, hm]
  · rw [hn, hm]
    dsimp only
    rw [htext]

/-- The parameters of a function. -/
theorem parameterNodes_thins {n m : Node} (h : n.Thins m) :
    List.Forall₂ Node.Thins (parameterNodes n) (parameterNodes m) := by
  unfold parameterNodes
  -- an arrow with one bare parameter has no list
  rcases none_or_some_of_rel (h.field? .parameters) with ⟨hn, hm⟩ | ⟨list, list', hn, hm, hlists⟩
  · rw [hn, hm]
    rcases none_or_some_of_rel (h.field? .parameter) with ⟨hn, hm⟩ | ⟨c, d, hn, hm, hcd⟩
    · rw [hn, hm]
      exact .nil
    · rw [hn, hm]
      exact .cons hcd .nil
  · rw [hn, hm]
    refine hlists.named.forall₂_filter (fun c d hcd => ?_) fun c hc => ?_
    · rw [hcd.is_eq, hcd.is_eq]
    · rw [Node.is, Node.is, hc]
      rfl

/-- A parameter reads the kind and the text of its pattern, and nothing else of it. -/
theorem parameterOf?_congr {doc : Comment} {pattern pattern' : Node} {type : TypeText}
    {default? : Option String} {optional : Bool} (hkind : pattern'.kind = pattern.kind)
    (htext : pattern'.text = pattern.text) :
    parameterOf? doc pattern type default? optional =
      parameterOf? doc pattern' type default? optional := by
  unfold parameterOf?
  rw [Node.is, Node.is, Node.is, Node.is, hkind, htext]

/-- A parameter with an annotation is made from its pattern, its type and its default. -/
theorem parameter?_of_typed {doc : Comment} {n : Node}
    (h : n.kind = .requiredParameter ∨ n.kind = .optionalParameter) :
    parameter? doc n = (n.field? .pattern).bind fun pattern =>
      parameterOf? doc pattern (ascribedText (n.field? .type))
        ((n.field? .value).map fun value : Node => Text.collapsed value.text)
        (n.is .optionalParameter) := by
  unfold parameter?
  rcases h with h | h <;> rw [h] <;> cases n.field? .pattern <;> rfl

/-- What a page shows of a parameter. -/
theorem parameter?_thins {n m : Node} (doc : Comment) (h : n.Thins m) :
    parameter? doc n = parameter? doc m := by
  by_cases htyped : n.kind = .requiredParameter ∨ n.kind = .optionalParameter
  -- patterns and defaults are shown, so their texts are the same
  · have hshows : ∀ role, role = .pattern ∨ role = .value → n.host.shows (some role) = true := by
      rintro role (rfl | rfl) <;> rcases htyped with hn | hn <;> simp [Host.shows, Node.host, hn]
    have hvalue : (n.field? .value).map (fun value : Node => Text.collapsed value.text) =
        (m.field? .value).map fun value : Node => Text.collapsed value.text := by
      have htext := congrArg (Option.map Text.collapsed) (h.text_field? (hshows .value (.inr rfl)))
      rwa [Option.map_map, Option.map_map] at htext
    rw [parameter?_of_typed htyped, parameter?_of_typed (by rwa [h.kind]), hvalue,
      h.is_eq .optionalParameter, ascribedText_thins h]
    refine bind_eq_of_rel (h.field?_shown (hshows .pattern (.inl rfl))) fun c d hcd => ?_
    exact parameterOf?_congr hcd.1.kind hcd.2
  · have hkind := h.kind
    unfold parameter?
    rw [hkind]
    cases hn : n.kind with
    | requiredParameter | optionalParameter => exact absurd hn (by tauto)
    | identifier => exact parameterOf?_congr hkind (h.text (by rw [hn]; rfl))
    | _ => rfl

/-! ### Members -/

/-- Members that differ in comments have the same type. -/
theorem memberType?_thins {n m : Node} (h : n.Thins m) : memberType? n = memberType? m := by
  unfold memberType?
  rw [h.kind]
  cases hkind : n.kind with
  | propertySignature => exact congrArg some (ascribedText_thins h)
  | methodSignature =>
    have hparameters : (n.field? .parameters).map Node.text =
        (m.field? .parameters).map Node.text :=
      h.text_field? (by simp [Host.shows, Node.host, hkind])
    have hresult : ((n.field? .returnType).bind annotated?).map Node.text =
        ((m.field? .returnType).bind annotated?).map Node.text :=
      map_eq_of_rel (annotated?_thins h (.inr rfl)) fun c _ d hcd => hcd.2.symm
    dsimp only
    rw [hparameters, hresult]
  | _ => rfl

theorem propertyName_thins {n m : Node} (h : n.Thins m) (htext : m.text = n.text) :
    propertyName n = propertyName m := by
  rw [propertyName, propertyName, h.is_eq, htext]

/-- What a page shows of a member. -/
theorem member?_thins {before before' : List Node} {n m : Node}
    (hbefore : Node.ThinsAll before before') (h : n.Thins m) :
    member? before n = member? before' m := by
  unfold member?
  rw [memberType?_thins h, isLikeness_thins.leadingComment?_eq hbefore,
    h.any_children_eq (show Kind.questionMark ≠ .comment by decide)]
  -- a member without a name is none on both sides
  rcases none_or_some_of_rel h.name? with ⟨hn, hm⟩ | ⟨c, d, hn, hm, hcd, htext⟩
  · rw [hn, hm]
  · rw [hn, hm]
    cases memberType? m with
    | none => rfl
    | some type =>
      dsimp only
      rw [propertyName_thins hcd htext]

theorem member?_of_comment {before : List Node} {n : Node} (h : n.kind = .comment) :
    member? before n = none := by
  unfold member? memberType?
  rw [h]

/-- The members in a body. -/
theorem members_thins {n m : Node} (h : n.Thins m) (hn : n.host.lists = true) :
    members n = members m := by
  refine (h.placed hn).filterMap_eq (fun x y hxy => member?_thins hxy.1 hxy.2) fun x hx => ?_
  exact member?_of_comment (Node.kind_of_isPlain hx)

end RefPages.Source
