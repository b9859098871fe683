import HookWeave.Hook.Scan
import HookWeave.Proofs.Outcomes
import Mathlib.Data.List.Basic
import Mathlib.Logic.Basic

/-!
# What a scan reports

A scan reports every patch attribute of every method of a type that provides hooks, once, in the order of
types, methods and attributes (`Conventions.scan_reports`): its entries are told apart by the sites of the
attributes (`Conventions.report`), which are all different. What makes an attribute usable is said of the
attributes alone (`Conventions.Usable`), and so is what the request of a usable one is
(`Conventions.Describes`). An entry depends on its own method and the attributes of its own type, and so no
other method has a part in it.
-/

namespace HookWeave

/-! ## First occurrences -/

/-- A list holds what another one holds, each element once, in the order of their first occurrences. -/
structure FirstOccurrences {α : Type} [DecidableEq α] (all kept : List α) : Prop where
  distinct : kept.Nodup
  complete : ∀ a, a ∈ kept ↔ a ∈ all
  ordered : kept.Pairwise fun a b => all.idxOf a < all.idxOf b

section

variable {α β : Type}

/-- Elements that are kept have their first occurrences in the order in which they had them. -/
lemma idxOf_lt_of_filter [DecidableEq α] {p : α → Bool} {all : List α} {a b : α} (ha : p a = true)
    (hb : p b = true) (h : (all.filter p).idxOf a < (all.filter p).idxOf b) : all.idxOf a < all.idxOf b := by
  induction all with
  | nil => exact h
  | cons x all ih =>
    rw [List.idxOf_cons, List.idxOf_cons]
    by_cases kept : p x = true
    · rw [List.filter_cons_of_pos kept, List.idxOf_cons, List.idxOf_cons] at h
      cases first : x == a with
      | true =>
        rw [first] at h
        cases second : x == b with
        | true =>
          rw [second] at h
          cases h
        | false => exact Nat.succ_pos _
      | false =>
        rw [first] at h
        cases second : x == b with
        | true =>
          rw [second] at h
          cases h
        | false =>
          rw [second] at h
          exact Nat.succ_lt_succ (ih (Nat.lt_of_succ_lt_succ h))
    · rw [List.filter_cons_of_neg kept] at h
      have other {y : α} (hy : p y = true) : (x == y) = false :=
        beq_false_of_ne fun same => kept (same ▸ hy)
      rw [other ha, other hb]
      exact Nat.succ_lt_succ (ih h)

/-- Duplicates are erased behind the first occurrences. -/
lemma firstOccurrences_eraseDups [DecidableEq α] (all : List α) : FirstOccurrences all all.eraseDups := by
  induction size : all.length using Nat.strongRecOn generalizing all with
  | ind n ih =>
    cases all with
    | nil => exact ⟨List.nodup_nil, fun _ => Iff.rfl, .nil⟩
    | cons a all =>
      have smaller : (all.filter fun b => !b == a).length < n :=
        size ▸ Nat.lt_succ_of_le (List.length_filter_le _ _)
      obtain ⟨distinct, complete, ordered⟩ := ih _ smaller _ rfl
      have others {b : α} (hb : b ∈ (all.filter fun b => !b == a).eraseDups) : b ≠ a := by
        have kept := (List.mem_filter.1 ((complete b).1 hb)).2
        rw [Bool.not_eq_true', beq_eq_false_iff_ne] at kept
        exact kept
      refine ⟨?_, fun b => List.mem_eraseDups, ?_⟩
      · rw [List.eraseDups_cons]
        exact List.nodup_cons.2 ⟨fun there => others there rfl, distinct⟩
      · rw [List.eraseDups_cons]
        refine List.pairwise_cons.2 ⟨fun b hb => ?_, ordered.imp_of_mem fun {b c} hb hc before => ?_⟩
        · rw [List.idxOf_cons_self, List.idxOf_cons_ne _ (others hb).symm]
          exact Nat.succ_pos _
        · rw [List.idxOf_cons_ne _ (others hb).symm, List.idxOf_cons_ne _ (others hc).symm]
          have kept {d : α} (hd : d ≠ a) : (!d == a) = true := by
            rw [beq_false_of_ne hd]
            rfl
          exact Nat.succ_lt_succ (idxOf_lt_of_filter (kept (others hb)) (kept (others hc)) before)

/-! ## Numbered lists -/

/-- Elements stand in the order of their numbers. -/
lemma pairwise_zipIdx (as : List α) : as.zipIdx.Pairwise fun x y => x.2 < y.2 := by
  rw [← List.pairwise_map, List.zipIdx_map_snd]
  exact List.pairwise_lt_range'

lemma flatMap_zipIdx {f : α → List β} (as : List α) :
    (as.zipIdx.flatMap fun x => f x.1) = as.flatMap f := by
  have same := List.flatMap_map Prod.fst f as.zipIdx
  rwa [List.zipIdx_map_fst, eq_comm] at same

end

/-! ## Arguments of patch attributes -/

/-- The arguments of a patch attribute name a type, a method, and maybe types of fields. -/
inductive PatchArguments (target : TypeRef) (method : String) :
    List TypeRef → List AttributeArgument → Prop
  | alone : PatchArguments target method [] [.type target, .string method]
  | null : PatchArguments target method [] [.type target, .string method, .null]
  | array (types : List TypeRef) :
    PatchArguments target method types [.type target, .string method, .array (types.map .type)]

lemma AttributeArgument.type?_eq_some {argument : AttributeArgument} {t : TypeRef} :
    argument.type? = some t ↔ argument = .type t := by
  cases argument with
  | type t' => simp [type?]
  | null | bool _ | int32 _ | string _ | array _ => simp [type?]

/-- All elements of a list are types if they are these types. -/
lemma mapM_type?_eq_some {elements : List AttributeArgument} {types : List TypeRef} :
    elements.mapM AttributeArgument.type? = some types ↔ elements = types.map .type := by
  rw [mapM_eq_some]
  constructor
  · intro h
    induction h with
    | nil => rfl
    | cons first _ ih => rw [List.map_cons, AttributeArgument.type?_eq_some.1 first, ih]
  · rintro rfl
    induction types with
    | nil => exact .nil
    | cons t types ih => exact .cons rfl ih

namespace PatchDirective

/-- A list is accepted if it holds types only. -/
lemma injectedTypes_array_eq_ok {elements extra : List AttributeArgument} {types : List TypeRef} :
    injectedTypes (.array elements :: extra) = .ok types ↔ elements = types.map .type := by
  rw [← mapM_type?_eq_some]
  cases found : elements.mapM AttributeArgument.type? with
  | none =>
    simp only [injectedTypes, found]
    exact ⟨nofun, nofun⟩
  | some types' => simp only [injectedTypes, found, Except.ok.injEq, Option.some_inj]

/-- Arguments that are accepted have the form that is asked for, and say what the directive says. -/
lemma of_ofArguments_eq_ok {arguments : List AttributeArgument} {d : PatchDirective}
    (h : ofArguments arguments = .ok d) : PatchArguments d.targetType d.targetMethod d.injected arguments := by
  unfold ofArguments at h
  split at h
  · cases h
  · split at h
    · cases h
    · next extra =>
      obtain ⟨types, listed, h⟩ := bind_eq_ok.1 h
      by_cases many : 1 < extra.length
      · rw [if_pos many] at h
        cases h
      rw [if_neg many] at h
      cases h
      cases extra with
      | nil =>
        cases listed
        exact .alone
      | cons argument extra =>
        have none : extra = [] := by
          rw [List.length_cons] at many
          exact List.eq_nil_of_length_eq_zero (by omega)
        subst none
        cases argument with
        | null =>
          cases listed
          exact .null
        | array elements =>
          cases injectedTypes_array_eq_ok.1 listed
          exact .array types
        | bool _ | int32 _ | string _ | type _ => cases listed
    · cases h
  · cases h

/-- Arguments of that form are accepted. -/
lemma ofArguments_eq_ok {arguments : List AttributeArgument} {target : TypeRef} {method : String}
    {types : List TypeRef} (h : PatchArguments target method types arguments) :
    ofArguments arguments = .ok ⟨target, method, types⟩ := by
  cases h with
  | alone | null => rfl
  | array => exact bind_eq_ok.2 ⟨types, injectedTypes_array_eq_ok.2 rfl, rfl⟩

end PatchDirective

/-! ## Sites -/

/-- Where an attribute of a method stands in a module: the positions of the type, of the method in it, and of
the attribute on that. -/
structure Site where
  type : Nat
  method : Nat
  position : Nat

/-- Sites come in the order of types, then of methods, then of attributes. -/
def Site.Before (a b : Site) : Prop :=
  a.type < b.type ∨ a.type = b.type ∧ (a.method < b.method
    ∨ a.method = b.method ∧ a.position < b.position)

/-- Attributes of a type of that name are among these. -/
def Carries (attributes : List Attribute) (name : String) : Prop :=
  ∃ a ∈ attributes, a.constructor.owner.name = name

/-- An attribute asks for a field of a type. -/
def Asks (a : Attribute) (t : TypeRef) : Prop :=
  a.arguments = [.type t]

/-- The module with a method in the place of another. -/
def Module.setMethod (m : Module) (i j : Nat) (method : MethodDeclaration) : Module :=
  { m with types := m.types.modify i fun t => { t with methods := t.methods.set j method } }

/-- The module with other attributes on a type. -/
def Module.setAttributes (m : Module) (i : Nat) (attributes : List Attribute) : Module :=
  { m with types := m.types.modify i fun t => { t with attributes } }

namespace Conventions

/-- A patch attribute stands at a site: on a method of a type that implements an interface with the fragment
in its name. -/
structure PatchAt (c : Conventions) (m : Module) (site : Site) (t : TypeDeclaration)
    (method : MethodDeclaration) (a : Attribute) : Prop where
  declared : m.types[site.type]? = some t
  provides : ∃ i ∈ t.interfaces, c.provider.toList <:+: i.name.toList
  listed : t.methods[site.method]? = some method
  carried : method.attributes[site.position]? = some a
  named : a.constructor.owner.name = c.patchAttribute

/-- A patch attribute can be used: its method carries exactly one of the attributes that say when the hook
runs, its arguments have the form that is asked for, and so have those of all attributes on the method and
on its type that ask for fields. -/
structure Usable (c : Conventions) (t : TypeDeclaration) (method : MethodDeclaration) (a : Attribute) :
    Prop where
  kind : Xor (Carries method.attributes c.beforeAttribute) (Carries method.attributes c.afterAttribute)
  arguments : ∃ target name types, PatchArguments target name types a.arguments
  asked : ∀ b ∈ method.attributes ++ t.attributes, b.constructor.owner.name = c.injectAttribute →
    ∃ type, Asks b type

/-- A request says what its attribute and its method say. Fields are asked for by the patch attribute, by
attributes of the method and by attributes of the type, in this order. -/
structure Describes (c : Conventions) (scope : String) (t : TypeDeclaration) (method : MethodDeclaration)
    (a : Attribute) (r : PatchRequest) : Prop where
  before : r.kind = .before ↔ Carries method.attributes c.beforeAttribute
  after : r.kind = .after ↔ Carries method.attributes c.afterAttribute
  asked : ∃ listed own shared, PatchArguments r.targetType r.targetMethod listed a.arguments
    ∧ List.Forall₂ Asks (method.attributes.filter (·.isNamed c.injectAttribute)) own
    ∧ List.Forall₂ Asks (t.attributes.filter (·.isNamed c.injectAttribute)) shared
    ∧ FirstOccurrences (listed ++ own ++ shared) r.injected
  hook : r.hook = ⟨⟨scope, t.space, t.name⟩, method.name, ⟨!method.isStatic, method.ret,
    method.params.map (·.type)⟩⟩
  params : r.hookParams = method.params
  isStatic : r.hookIsStatic = method.isStatic

/-- What the patch attributes of a method give, each at its site. -/
def reportMethod (c : Conventions) (scope : String) (t : TypeDeclaration) (i j : Nat)
    (method : MethodDeclaration) : List (Site × ScannedHook) :=
  (method.attributes.zipIdx.filter (·.1.isNamed c.patchAttribute)).map fun x =>
    (⟨i, j, x.2⟩, ⟨(t.reference scope).memberName method.name, c.request scope t method x.1⟩)

/-- What the patch attributes of a type give, each at its site. -/
def reportType (c : Conventions) (scope : String) (i : Nat) (t : TypeDeclaration) :
    List (Site × ScannedHook) :=
  if c.isProvider t then t.methods.zipIdx.flatMap fun x => c.reportMethod scope t i x.2 x.1 else []

/-- What the patch attributes of a module give, each at its site. -/
def report (c : Conventions) (m : Module) : List (Site × ScannedHook) :=
  m.types.zipIdx.flatMap fun x => c.reportType m.name x.2 x.1

variable {c : Conventions} {m : Module} {t : TypeDeclaration} {method : MethodDeclaration}
  {a : Attribute} {scope hook : String} {site : Site} {entry : ScannedHook} {r : PatchRequest} {i j : Nat}

/-! ## Requests -/

lemma hasAttribute_iff {name : String} :
    method.hasAttribute name = true ↔ Carries method.attributes name := by
  unfold MethodDeclaration.hasAttribute Carries Attribute.isNamed
  simp only [List.any_eq_true, decide_eq_true_iff]

/-- A hook has a kind if it carries exactly one of the attributes. -/
lemma hookKind_eq_ok {kind : HookKind} : c.hookKind hook method = .ok kind
    ↔ (kind = .before ∧ Carries method.attributes c.beforeAttribute
        ∧ ¬ Carries method.attributes c.afterAttribute)
      ∨ (kind = .after ∧ Carries method.attributes c.afterAttribute
        ∧ ¬ Carries method.attributes c.beforeAttribute) := by
  unfold hookKind
  rw [← hasAttribute_iff, ← hasAttribute_iff]
  cases method.hasAttribute c.beforeAttribute with
  | true =>
    cases method.hasAttribute c.afterAttribute with
    | true => simp
    | false => simp [eq_comm]
  | false =>
    cases method.hasAttribute c.afterAttribute with
    | true => simp [eq_comm]
    | false => simp

lemma injectedType_eq_ok {type : TypeRef} : c.injectedType hook a = .ok type ↔ Asks a type := by
  unfold injectedType Asks
  split
  · next t' same =>
    rw [same]
    simp
  · next other =>
    constructor
    · intro h
      cases h
    · intro same
      exact absurd same (other type)

lemma ofAttribute_eq_ok {d : PatchDirective} : PatchDirective.ofAttribute hook a = .ok d
    ↔ PatchDirective.ofArguments a.arguments = .ok d := by
  unfold PatchDirective.ofAttribute
  exact mapError_eq_ok

/-- A request that is made is made of a usable attribute, and describes it. -/
lemma of_request_eq_ok (h : c.request scope t method a = .ok r) :
    c.Usable t method a ∧ c.Describes scope t method a r := by
  obtain ⟨kind, kinds, h₁⟩ := bind_eq_ok.1 h
  obtain ⟨directive, read, h₂⟩ := bind_eq_ok.1 h₁
  obtain ⟨more, asked, h₃⟩ := bind_eq_ok.1 h₂
  cases h₃
  have kinds := hookKind_eq_ok.1 kinds
  have arguments := PatchDirective.of_ofArguments_eq_ok (ofAttribute_eq_ok.1 read)
  have asks := (mapM_eq_ok.1 asked).imp fun _ _ => injectedType_eq_ok.1
  obtain ⟨own, shared, rfl, ofMethod, ofType⟩ := of_forall₂_append asks
  refine ⟨⟨?_, ⟨_, _, _, arguments⟩, fun b hb named => ?_⟩, ⟨?_, ?_, ?_, rfl, rfl, rfl⟩⟩
  · obtain ⟨_, carries, without⟩ | ⟨_, carries, without⟩ := kinds
    · exact .inl ⟨carries, without⟩
    · exact .inr ⟨carries, without⟩
  · have named : b.isNamed c.injectAttribute = true := decide_eq_true named
    have listed : b ∈ method.attributesNamed c.injectAttribute ++ t.attributesNamed c.injectAttribute := by
      cases List.mem_append.1 hb with
      | inl hb => exact List.mem_append_left _ (List.mem_filter.2 ⟨hb, named⟩)
      | inr hb => exact List.mem_append_right _ (List.mem_filter.2 ⟨hb, named⟩)
    obtain ⟨k, at'⟩ := List.mem_iff_getElem?.1 listed
    obtain ⟨type, _, asks⟩ := forall₂_getElem? asks at'
    exact ⟨type, asks⟩
  · obtain ⟨rfl, carries, without⟩ | ⟨rfl, carries, without⟩ := kinds
    · exact iff_of_true rfl carries
    · exact iff_of_false nofun without
  · obtain ⟨rfl, carries, without⟩ | ⟨rfl, carries, without⟩ := kinds
    · exact iff_of_false nofun without
    · exact iff_of_true rfl carries
  · exact ⟨_, own, shared, arguments, ofMethod, ofType,
      List.append_assoc .. ▸ firstOccurrences_eraseDups _⟩

/-- A usable attribute makes a request. -/
lemma request_of_usable (h : c.Usable t method a) : ∃ r, c.request scope t method a = .ok r := by
  obtain ⟨target, name, types, arguments⟩ := h.arguments
  have kinds : ∃ kind, c.hookKind ((t.reference scope).memberName method.name) method = .ok kind := by
    obtain ⟨carries, without⟩ | ⟨carries, without⟩ := h.kind
    · exact ⟨.before, hookKind_eq_ok.2 (.inl ⟨rfl, carries, without⟩)⟩
    · exact ⟨.after, hookKind_eq_ok.2 (.inr ⟨rfl, carries, without⟩)⟩
  obtain ⟨kind, kinds⟩ := kinds
  have asks : ∀ b ∈ method.attributesNamed c.injectAttribute ++ t.attributesNamed c.injectAttribute,
      ∃ type, Asks b type := by
    refine List.forall_mem_append.2 ⟨fun b hb => ?_, fun b hb => ?_⟩
    · obtain ⟨hb, named⟩ := List.mem_filter.1 hb
      exact h.asked b (List.mem_append_left _ hb) (of_decide_eq_true named)
    · obtain ⟨hb, named⟩ := List.mem_filter.1 hb
      exact h.asked b (List.mem_append_right _ hb) (of_decide_eq_true named)
  obtain ⟨more, made⟩ := exists_mapM (f := c.injectedType ((t.reference scope).memberName method.name))
    fun b hb => (asks b hb).imp fun _ => injectedType_eq_ok.2
  have read : PatchDirective.ofAttribute ((t.reference scope).memberName method.name) a
      = .ok ⟨target, name, types⟩ :=
    ofAttribute_eq_ok.2 (PatchDirective.ofArguments_eq_ok arguments)
  exact ⟨_, bind_eq_ok.2 ⟨kind, kinds, bind_eq_ok.2 ⟨_, read, bind_eq_ok.2 ⟨more, made, rfl⟩⟩⟩⟩

/-! ## Reports -/

lemma occursIn_iff {fragment text : List Char} : occursIn fragment text = true ↔ fragment <:+: text := by
  induction text with
  | nil =>
    rw [occursIn, List.isEmpty_iff, List.infix_nil]
  | cons c text ih =>
    rw [occursIn, Bool.or_eq_true, List.isPrefixOf_iff_prefix, ih, List.infix_cons_iff]

lemma isProvider_iff :
    c.isProvider t = true ↔ ∃ i ∈ t.interfaces, c.provider.toList <:+: i.name.toList := by
  unfold isProvider TypeDeclaration.implementsLike
  simp only [List.any_eq_true, occursIn_iff]

lemma scan_eq : c.scan m = m.types.flatMap fun t =>
    if c.isProvider t then t.methods.flatMap (c.scanMethod m.name t) else [] := by
  unfold scan
  induction m.types with
  | nil => rfl
  | cons t types ih =>
    rw [List.flatMap_cons, ← ih, List.filter_cons]
    split
    · rfl
    · rfl

lemma map_reportMethod : (c.reportMethod scope t i j method).map (·.2) = c.scanMethod scope t method := by
  have named : (method.attributes.zipIdx.filter (·.1.isNamed c.patchAttribute)).map Prod.fst
      = method.attributes.filter (·.isNamed c.patchAttribute) := by
    have same := List.filter_map (f := Prod.fst) (p := (·.isNamed c.patchAttribute))
      (l := method.attributes.zipIdx)
    rwa [List.zipIdx_map_fst, eq_comm] at same
  unfold reportMethod scanMethod MethodDeclaration.attributesNamed
  rw [List.map_map, ← named, List.map_map]
  rfl

/-- The entries of a scan are those of the report. -/
lemma map_report : (c.report m).map (·.2) = c.scan m := by
  rw [scan_eq, ← flatMap_zipIdx m.types, report, List.map_flatMap]
  refine congrArg (m.types.zipIdx.flatMap ·) (funext fun x => ?_)
  unfold reportType
  split
  · rw [← flatMap_zipIdx x.1.methods, List.map_flatMap]
    exact congrArg (x.1.methods.zipIdx.flatMap ·) (funext fun y => map_reportMethod)
  · rfl

lemma mem_reportMethod : (site, entry) ∈ c.reportMethod scope t i j method
    ↔ site.type = i ∧ site.method = j ∧ ∃ a, method.attributes[site.position]? = some a
      ∧ a.constructor.owner.name = c.patchAttribute
      ∧ entry = ⟨(t.reference scope).memberName method.name, c.request scope t method a⟩ := by
  unfold reportMethod
  rw [List.mem_map]
  constructor
  · rintro ⟨⟨a, k⟩, listed, same⟩
    obtain ⟨there, named⟩ := List.mem_filter.1 listed
    cases same
    exact ⟨rfl, rfl, a, List.mem_zipIdx_iff_getElem?.1 there, of_decide_eq_true named, rfl⟩
  · rintro ⟨rfl, rfl, a, there, named, rfl⟩
    exact ⟨(a, site.position), List.mem_filter.2 ⟨List.mem_zipIdx_iff_getElem?.2 there,
      decide_eq_true named⟩, rfl⟩

lemma mem_reportType : (site, entry) ∈ c.reportType scope i t
    ↔ site.type = i ∧ c.isProvider t = true ∧ ∃ method, t.methods[site.method]? = some method
      ∧ (site, entry) ∈ c.reportMethod scope t i site.method method := by
  unfold reportType
  by_cases provider : c.isProvider t = true
  · rw [if_pos provider, List.mem_flatMap]
    constructor
    · rintro ⟨⟨method, j⟩, listed, there⟩
      obtain ⟨type, same, _⟩ := mem_reportMethod.1 there
      have same : site.method = j := same
      subst same
      exact ⟨type, provider, method, List.mem_zipIdx_iff_getElem?.1 listed, there⟩
    · rintro ⟨_, _, method, listed, there⟩
      exact ⟨(method, site.method), List.mem_zipIdx_iff_getElem?.2 listed, there⟩
  · rw [if_neg provider]
    exact ⟨nofun, fun h => absurd h.2.1 provider⟩

/-- The report has an entry for each patch attribute, and no others. -/
lemma mem_report : (site, entry) ∈ c.report m ↔ ∃ t method a, c.PatchAt m site t method a
    ∧ entry = ⟨(t.reference m.name).memberName method.name, c.request m.name t method a⟩ := by
  unfold report
  rw [List.mem_flatMap]
  constructor
  · rintro ⟨⟨t, i⟩, listed, there⟩
    obtain ⟨type, provider, method, at', there⟩ := mem_reportType.1 there
    obtain ⟨_, _, a, on, named, made⟩ := mem_reportMethod.1 there
    have type : site.type = i := type
    subst type
    have listed' : m.types[_]? = some t := List.mem_zipIdx_iff_getElem?.1 listed
    exact ⟨t, method, a, ⟨listed', isProvider_iff.1 provider, at', on, named⟩,
      made⟩
  · rintro ⟨t, method, a, ⟨type, provides, at', on, named⟩, made⟩
    refine ⟨(t, site.type), List.mem_zipIdx_iff_getElem?.2 type, mem_reportType.2 ⟨rfl,
      isProvider_iff.2 provides, method, at', mem_reportMethod.2 ⟨rfl, rfl, a, on, named, made⟩⟩⟩

/-- No two attributes stand at one site. -/
lemma PatchAt.unique {t' : TypeDeclaration} {method' : MethodDeclaration} {a' : Attribute}
    (h : c.PatchAt m site t method a) (h' : c.PatchAt m site t' method' a') :
    t' = t ∧ method' = method ∧ a' = a := by
  cases h.declared.symm.trans h'.declared
  cases h.listed.symm.trans h'.listed
  cases h.carried.symm.trans h'.carried
  exact ⟨rfl, rfl, rfl⟩

/-- The entries of a report stand in the order of their sites. -/
lemma pairwise_report : (c.report m).Pairwise fun x y => x.1.Before y.1 := by
  refine List.pairwise_flatMap.2 ⟨fun x _ => ?_, (pairwise_zipIdx m.types).imp fun before e he e' he' => ?_⟩
  · unfold reportType
    split
    · refine List.pairwise_flatMap.2 ⟨fun y _ => ?_, ?_⟩
      · refine List.pairwise_map.2 (((pairwise_zipIdx _).filter _).imp fun before => ?_)
        exact .inr ⟨rfl, .inr ⟨rfl, before⟩⟩
      · refine (pairwise_zipIdx x.1.methods).imp fun before e he e' he' => ?_
        obtain ⟨type, method, _⟩ := mem_reportMethod.1 he
        obtain ⟨type', method', _⟩ := mem_reportMethod.1 he'
        exact .inr ⟨type.trans type'.symm, .inl (method ▸ method' ▸ before)⟩
    · exact .nil
  · obtain ⟨type, _⟩ := mem_reportType.1 he
    obtain ⟨type', _⟩ := mem_reportType.1 he'
    exact .inl (type ▸ type' ▸ before)

/-! ## Other methods -/

/-- The entry of an attribute depends on the method that carries it and on what its type is but for its
methods. -/
lemma mem_report_setMethod {new : MethodDeclaration} (apart : ¬ (site.type = i ∧ site.method = j)) :
    (site, entry) ∈ c.report (m.setMethod i j new) ↔ (site, entry) ∈ c.report m := by
  have types : (m.setMethod i j new).types[site.type]? = m.types[site.type]?.map fun t =>
      { t with methods := if i = site.type then t.methods.set j new else t.methods } := by
    refine (List.getElem?_modify ..).trans (congrFun (congrArg Option.map (funext fun t => ?_)) _)
    split
    · rfl
    · rfl
  have methods (t : TypeDeclaration) : (if i = site.type then t.methods.set j new else t.methods)[site.method]?
      = t.methods[site.method]? := by
    split
    · next here => exact List.getElem?_set_ne fun same => apart ⟨here.symm, same.symm⟩
    · rfl
  rw [mem_report, mem_report]
  constructor
  · rintro ⟨t', method, a, ⟨type, provides, at', on, named⟩, made⟩
    rw [types, Option.map_eq_some_iff] at type
    obtain ⟨t, type, rfl⟩ := type
    exact ⟨t, method, a, ⟨type, provides, (methods t).symm.trans at', on, named⟩, made⟩
  · rintro ⟨t, method, a, ⟨type, provides, at', on, named⟩, made⟩
    rw [type, Option.map_some] at types
    exact ⟨_, method, a, ⟨types, provides, (methods t).trans at', on, named⟩, made⟩

/-- The entry of an attribute does not depend on the attributes of other types. -/
lemma mem_report_setAttributes {attributes : List Attribute} (apart : site.type ≠ i) :
    (site, entry) ∈ c.report (m.setAttributes i attributes) ↔ (site, entry) ∈ c.report m := by
  have types : (m.setAttributes i attributes).types[site.type]? = m.types[site.type]? :=
    List.getElem?_modify_ne _ _ apart.symm
  rw [mem_report, mem_report]
  constructor
  · rintro ⟨t, method, a, ⟨type, provides, at', on, named⟩, made⟩
    exact ⟨t, method, a, ⟨types ▸ type, provides, at', on, named⟩, made⟩
  · rintro ⟨t, method, a, ⟨type, provides, at', on, named⟩, made⟩
    exact ⟨t, method, a, ⟨types ▸ type, provides, at', on, named⟩, made⟩

/-- A scan reports every patch attribute of the methods of the types that provide hooks, each once and no
others, in the order of types, methods and attributes. The entry of an attribute is a request exactly if the
attribute is usable, and then one that describes it. Whatever takes the place of a method, the entries of
other methods stay, and whatever attributes a type has, so do those of other types. -/
theorem scan_reports (c : Conventions) (m : Module) :
    c.scan m = (c.report m).map (·.2)
    ∧ (c.report m).Pairwise (fun x y => x.1.Before y.1)
    ∧ (∀ site, (∃ entry, (site, entry) ∈ c.report m) ↔ ∃ t method a, c.PatchAt m site t method a)
    ∧ (∀ site t method a entry, c.PatchAt m site t method a → (site, entry) ∈ c.report m →
      entry.hook = t.fullName ++ "::" ++ method.name
      ∧ ((∃ r, entry.request = .ok r) ↔ c.Usable t method a)
      ∧ ∀ r, entry.request = .ok r → c.Describes m.name t method a r)
    ∧ (∀ i j method site entry, ¬ (site.type = i ∧ site.method = j) →
      ((site, entry) ∈ c.report (m.setMethod i j method) ↔ (site, entry) ∈ c.report m))
    ∧ ∀ i attributes site entry, site.type ≠ i →
      ((site, entry) ∈ c.report (m.setAttributes i attributes) ↔ (site, entry) ∈ c.report m) := by
  refine ⟨map_report.symm, pairwise_report, fun site => ?_, fun site t method a entry placed listed => ?_,
    fun i j method site entry => mem_report_setMethod,
    fun i attributes site entry => mem_report_setAttributes⟩
  · constructor
    · rintro ⟨entry, listed⟩
      obtain ⟨t, method, a, placed, _⟩ := mem_report.1 listed
      exact ⟨t, method, a, placed⟩
    · rintro ⟨t, method, a, placed⟩
      exact ⟨_, mem_report.2 ⟨t, method, a, placed, rfl⟩⟩
  · obtain ⟨t', method', a', placed', rfl⟩ := mem_report.1 listed
    obtain ⟨rfl, rfl, rfl⟩ := placed.unique placed'
    refine ⟨rfl, ⟨?_, request_of_usable⟩, fun r made => (of_request_eq_ok made).2⟩
    rintro ⟨r, made⟩
    exact (of_request_eq_ok made).1

end Conventions

namespace Example

/-- An attribute of a name. -/
def tag (name : String) (arguments : List AttributeArgument) : Attribute :=
  ⟨⟨⟨"mod", "", name⟩, ".ctor", ⟨true, .void, []⟩⟩, arguments⟩

/-- A hook that runs before a method and asks for a field, with more attributes. -/
def peal (more : List Attribute) : MethodDeclaration where
  name := "peal"
  flags := 0x16
  params := []
  ret := .void
  attributes := tag "CrossPatchAttribute" [.type ⟨"app", "", "Bell"⟩, .string "ring",
    .array [.type ⟨"app", "", "Rope"⟩, .type ⟨"app", "", "Rope"⟩]] :: tag "CrossPrefixAttribute" [] :: more
  body := none

/-- A type with two hooks, of which the second is to run after the method as well. -/
def peals : TypeDeclaration where
  space := ""
  name := "Peals"
  flags := 1
  base := none
  interfaces := [⟨"mod", "", "ICrossPatches"⟩]
  attributes := [tag "CrossInjectAttribute" [.type ⟨"app", "", "Bell"⟩]]
  fields := []
  methods := [peal [], peal [tag "CrossPostfixAttribute" []]]

/-- Both hooks are reported, the first with the request that it makes. -/
theorem peals_reported :
    (∃ entry r, (⟨0, 0, 0⟩, entry) ∈ Conventions.report {} (.ofParts "mod" [] [peals])
      ∧ entry.request = .ok r ∧ Conventions.Describes {} "mod" peals (peal [])
        (tag "CrossPatchAttribute" [.type ⟨"app", "", "Bell"⟩, .string "ring",
          .array [.type ⟨"app", "", "Rope"⟩, .type ⟨"app", "", "Rope"⟩]]) r)
    ∧ ∃ entry, (⟨0, 1, 0⟩, entry) ∈ Conventions.report {} (.ofParts "mod" [] [peals])
      ∧ ¬ ∃ r, entry.request = .ok r := by
  obtain ⟨_, _, sites, entries, _⟩ := Conventions.scan_reports {} (.ofParts "mod" [] [peals])
  have provides : ∃ i ∈ peals.interfaces, "ICrossPatch".toList <:+: i.name.toList :=
    ⟨_, List.mem_singleton_self _, [], "es".toList, by decide⟩
  constructor
  · obtain ⟨entry, listed⟩ := (sites ⟨0, 0, 0⟩).2 ⟨peals, _, _, rfl, provides, rfl, rfl, rfl⟩
    obtain ⟨_, usable, describes⟩ := entries _ peals (peal []) _ entry ⟨rfl, provides, rfl, rfl, rfl⟩ listed
    have asked : ∀ b ∈ (peal []).attributes ++ peals.attributes,
        b.constructor.owner.name = "CrossInjectAttribute" → ∃ type, Asks b type := by
      refine List.forall_mem_cons.2 ⟨fun named => absurd named (by decide), ?_⟩
      refine List.forall_mem_cons.2 ⟨fun named => absurd named (by decide), ?_⟩
      exact List.forall_mem_singleton.2 fun _ => ⟨_, rfl⟩
    obtain ⟨r, made⟩ := usable.2 ⟨.inl ⟨⟨_, .tail _ (.head _), rfl⟩, by unfold Carries; decide⟩,
      ⟨_, _, _, .array [⟨"app", "", "Rope"⟩, ⟨"app", "", "Rope"⟩]⟩, asked⟩
    exact ⟨entry, r, listed, made, describes r made⟩
  · obtain ⟨entry, listed⟩ := (sites ⟨0, 1, 0⟩).2 ⟨peals, _, _, rfl, provides, rfl, rfl, rfl⟩
    refine ⟨entry, listed, fun made => ?_⟩
    obtain ⟨_, usable, _⟩ := entries _ peals _ _ entry ⟨rfl, provides, rfl, rfl, rfl⟩ listed
    have both : Carries (peal [tag "CrossPostfixAttribute" []]).attributes "CrossPrefixAttribute"
        ∧ Carries (peal [tag "CrossPostfixAttribute" []]).attributes "CrossPostfixAttribute" :=
      ⟨⟨_, .tail _ (.head _), rfl⟩, ⟨_, .tail _ (.tail _ (.head _)), rfl⟩⟩
    obtain ⟨_, without⟩ | ⟨_, without⟩ := (usable.1 made).kind
    · exact without both.2
    · exact without both.1

end Example
end HookWeave
