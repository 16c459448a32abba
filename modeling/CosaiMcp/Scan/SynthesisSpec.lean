import CosaiMcp.Py.JsonRead
import CosaiMcp.Scan.Synthesis

/-!
# Conformance to the schema of a tool

A synthesized payload conforms to a schema of plain properties exactly if one of the first of them
is a string and each later one that is required is a string too; without a string among the first,
exactly if the payload of the catalog happens to conform (`synthesized_conforms_iff`).
-/

namespace CosaiMcp.Scan

open Py
open Catalog (openBraces closeBraces substituteStr substituteValue substituteProbePayload
  substituted substituteValue_obj get?_of_substituteValue)

variable {φ : Type}

/-! ## Schemas of plain properties -/

inductive ParamType where
  | string
  | integer
  | number
  | boolean

namespace ParamType

def name : ParamType → Str
  | .string => lit "string"
  | .integer => lit "integer"
  | .number => lit "number"
  | .boolean => lit "boolean"

def Accepts : ParamType → Json φ → Prop
  | .string, .str _ => True
  | .integer, .int _ => True
  | .number, .int _ => True
  | .number, .float _ => True
  | .boolean, .bool _ => True
  | _, _ => False

theorem name_inj : ∀ {t u : ParamType}, t.name = u.name → t = u := by
  intro t u h
  cases t <;> cases u <;> first | rfl | exact absurd h (by decide)

theorem name_ne_nil (t : ParamType) : t.name ≠ [] := by
  cases t <;> exact List.cons_ne_nil _ _

end ParamType

def HasType (prop : Json φ) (t : ParamType) : Prop :=
  ∃ ms, prop = .obj ms ∧ (Json.obj ms).get? (lit "type") = some (.str t.name)

theorem HasType.unique {prop : Json φ} {t u : ParamType} (h : HasType prop t)
    (h' : HasType prop u) : t = u := by
  obtain ⟨ms, rfl, ht⟩ := h
  obtain ⟨ns, hns, hu⟩ := h'
  cases hns
  exact ParamType.name_inj (Json.str.inj (Option.some.inj (ht.symm.trans hu)))

/-- A schema with properties of plain types alone, all the names required among them. -/
structure FlatSchema (schema : List (Str × Json φ)) where
  properties : List (Str × Json φ)
  properties_eq : (Json.obj schema).get? (lit "properties") = some (.obj properties)
  distinct : (properties.map Prod.fst).Nodup
  typed : ∀ m ∈ properties, ∃ t, HasType m.2 t
  required : List Str
  required_eq :
    ((Json.obj schema).get? (lit "required")).getD (.arr []) = .arr (required.map .str)
  declared : ∀ name ∈ required, name ∈ properties.map Prod.fst

namespace FlatSchema

variable {schema : List (Str × Json φ)} (s : FlatSchema schema)

def Declares (name : Str) (t : ParamType) : Prop :=
  ∃ prop, (name, prop) ∈ s.properties ∧ HasType prop t

/-- The properties that discovery looks at. -/
def seen : List (Str × Json φ) := s.properties.take maxProperties

def unseen : List (Str × Json φ) := s.properties.drop maxProperties

def SeesString : Prop := ∃ m ∈ s.seen, HasType m.2 .string

/-- Every name required that discovery does not see is one of a string. -/
def UnseenStrings : Prop := ∀ m ∈ s.unseen, m.1 ∈ s.required → HasType m.2 .string

theorem Declares.unique {name : Str} {t u : ParamType} (h : s.Declares name t)
    (h' : s.Declares name u) : t = u := by
  obtain ⟨prop, hprop, ht⟩ := h
  obtain ⟨prop', hprop', hu⟩ := h'
  have heq := List.inj_on_of_nodup_map s.distinct hprop hprop' rfl
  rw [Prod.mk.injEq] at heq
  rw [← heq.2] at hu
  exact ht.unique hu

end FlatSchema

/-! ## What discovery reads -/

section Params

variable {properties : List (Str × Json φ)} {types : List ParamType} {name : Str}

theorem mem_paramsOfType : name ∈ paramsOfType (types.map ParamType.name) properties ↔
    ∃ t ∈ types, ∃ prop, (name, prop) ∈ properties ∧ HasType prop t := by
  rw [paramsOfType, List.mem_filterMap]
  constructor
  · rintro ⟨⟨n, prop⟩, hmem, h⟩
    split at h
    · next ms hms =>
      split at h
      · next typ htyp =>
        rw [Option.ite_none_right_eq_some, List.mem_map] at h
        obtain ⟨⟨t, ht, rfl⟩, h⟩ := h
        obtain rfl := Option.some.inj h
        obtain rfl : prop = .obj ms := hms
        refine ⟨t, ht, _, hmem, ms, rfl, ?_⟩
        cases hget : (Json.obj ms).get? (lit "type") with
        | none =>
          rw [hget] at htyp
          exact absurd (Json.str.inj htyp).symm t.name_ne_nil
        | some typ' =>
          rw [hget] at htyp
          exact congrArg some htyp
      · cases h
    · cases h
  · rintro ⟨t, ht, prop, hmem, ms, rfl, htype⟩
    refine ⟨_, hmem, ?_⟩
    simp only [htype, Option.getD_some]
    exact if_pos (List.mem_map_of_mem ht)

variable {schema : List (Str × Json φ)} (s : FlatSchema schema)

theorem parseInputSchema_eq : parseInputSchema (.obj schema) =
    ⟨paramsOfType ([.string].map ParamType.name) s.seen,
      paramsOfType ([.integer, .number].map ParamType.name) s.seen,
      paramsOfType ([.boolean].map ParamType.name) s.seen, s.required⟩ := by
  have hrequired : (s.required.map Json.str).filterMap (Json.asStr? (φ := φ)) = s.required := by
    rw [List.filterMap_map]
    exact List.filterMap_some
  rw [parseInputSchema]
  simp only [s.properties_eq, s.required_eq, Option.getD_some, hrequired]
  rfl

variable {s} in
theorem mem_stringParams : name ∈ (parseInputSchema (.obj schema)).stringParams ↔
    ∃ prop, (name, prop) ∈ s.seen ∧ HasType prop .string := by
  rw [parseInputSchema_eq s, mem_paramsOfType]
  simp only [List.mem_singleton, exists_eq_left]

variable {s} in
theorem mem_numericParams : name ∈ (parseInputSchema (.obj schema)).numericParams ↔
    ∃ prop, (name, prop) ∈ s.seen ∧ (HasType prop .integer ∨ HasType prop .number) := by
  rw [parseInputSchema_eq s, mem_paramsOfType]
  simp only [List.mem_cons, List.not_mem_nil, or_false, exists_eq_or_imp, exists_eq_left,
    and_or_left, exists_or]

variable {s} in
theorem mem_booleanParams : name ∈ (parseInputSchema (.obj schema)).booleanParams ↔
    ∃ prop, (name, prop) ∈ s.seen ∧ HasType prop .boolean := by
  rw [parseInputSchema_eq s, mem_paramsOfType]
  simp only [List.mem_singleton, exists_eq_left]

theorem FlatSchema.declares_of_seen {prop : Json φ} {t : ParamType} (h : (name, prop) ∈ s.seen)
    (ht : HasType prop t) : s.Declares name t :=
  ⟨prop, List.mem_of_mem_take h, ht⟩

/-- The minimal value of a property that discovery sees is one of its type. -/
theorem safeMinimalValue_seen {prop : Json φ} {t : ParamType} (h : (name, prop) ∈ s.seen)
    (ht : HasType prop t) :
    t.Accepts (safeMinimalValue (φ := φ) name (parseInputSchema (.obj schema))) := by
  have hdeclares := s.declares_of_seen h ht
  rw [safeMinimalValue]
  split
  · next hstring =>
    obtain ⟨prop', h', hs⟩ := mem_stringParams.mp hstring
    rw [hdeclares.unique s (s.declares_of_seen h' hs)]
    trivial
  split
  · next hnumeric =>
    obtain ⟨prop', h', hs | hs⟩ := mem_numericParams.mp hnumeric
    · rw [hdeclares.unique s (s.declares_of_seen h' hs)]
      trivial
    · rw [hdeclares.unique s (s.declares_of_seen h' hs)]
      trivial
  split
  · next hboolean =>
    obtain ⟨prop', h', hs⟩ := mem_booleanParams.mp hboolean
    rw [hdeclares.unique s (s.declares_of_seen h' hs)]
    trivial
  · next hstring hnumeric hboolean =>
    cases t with
    | string => trivial
    | integer => exact absurd (mem_numericParams.mpr ⟨prop, h, .inl ht⟩) hnumeric
    | number => exact absurd (mem_numericParams.mpr ⟨prop, h, .inr ht⟩) hnumeric
    | boolean => exact absurd (mem_booleanParams.mpr ⟨prop, h, ht⟩) hboolean

theorem FlatSchema.not_seen_of_unseen {prop prop' : Json φ} (h : (name, prop) ∈ s.unseen) :
    (name, prop') ∉ s.seen := by
  have hdistinct := s.distinct
  rw [← List.take_append_drop maxProperties s.properties, List.map_append] at hdistinct
  have hdisjoint := List.disjoint_of_nodup_append hdistinct
  exact fun h' => hdisjoint (List.mem_map.mpr ⟨_, h', rfl⟩) (List.mem_map.mpr ⟨_, h, rfl⟩)

/-- The minimal value of any other is the empty string. -/
theorem safeMinimalValue_unseen {prop : Json φ} (h : (name, prop) ∈ s.unseen) :
    safeMinimalValue (φ := φ) name (parseInputSchema (.obj schema)) = .str [] := by
  have hstring : name ∉ (parseInputSchema (.obj schema)).stringParams := fun hmem => by
    obtain ⟨prop', h', -⟩ := mem_stringParams.mp hmem
    exact s.not_seen_of_unseen h h'
  have hnumeric : name ∉ (parseInputSchema (.obj schema)).numericParams := fun hmem => by
    obtain ⟨prop', h', -⟩ := mem_numericParams.mp hmem
    exact s.not_seen_of_unseen h h'
  have hboolean : name ∉ (parseInputSchema (.obj schema)).booleanParams := fun hmem => by
    obtain ⟨prop', h', -⟩ := mem_booleanParams.mp hmem
    exact s.not_seen_of_unseen h h'
  rw [safeMinimalValue, if_neg hstring, if_neg hnumeric, if_neg hboolean]

end Params

/-! ## Filling -/

section Fill

variable {params : ParamNames} {skip : Option Str}

/-- Filling adds the names that are missing, each with its minimal value. -/
theorem mem_fillParams {names : List Str} {args : List (Str × Json φ)} {m : Str × Json φ} :
    m ∈ fillParams params skip names args ↔ m ∈ args ∨
      m.1 ∈ names ∧ some m.1 ≠ skip ∧ m.1 ∉ args.map Prod.fst ∧
        m.2 = safeMinimalValue m.1 params := by
  induction names generalizing args with
  | nil => simp [fillParams]
  | cons param names ih =>
    rw [fillParams]
    split
    · next h =>
      rw [ih, List.map_append, List.mem_append, List.mem_append, List.mem_singleton]
      constructor
      · rintro ((hargs | rfl) | ⟨hname, hskip, hkeys, hv⟩)
        · exact .inl hargs
        · exact .inr ⟨List.mem_cons_self, h.1, h.2, rfl⟩
        · exact .inr ⟨List.mem_cons_of_mem _ hname, hskip, fun hk => hkeys (.inl hk), hv⟩
      · rintro (hargs | ⟨hname, hskip, hkeys, hv⟩)
        · exact .inl (.inl hargs)
        · by_cases heq : m.1 = param
          · exact .inl (.inr (Prod.ext heq (heq ▸ hv)))
          · refine .inr ⟨List.mem_of_ne_of_mem heq hname, hskip, ?_, hv⟩
            exact fun hk => hk.elim hkeys fun hk => heq (List.mem_singleton.mp hk)
    · next h =>
      rw [ih]
      refine or_congr_right (and_congr_left fun hrest => ?_)
      refine (List.mem_cons.trans (or_iff_right ?_)).symm
      rintro rfl
      exact h ⟨hrest.1, hrest.2.1⟩

theorem mem_keys_fillParams {names : List Str} {args : List (Str × Json φ)} {name : Str}
    (hname : name ∈ names) (hskip : some name = skip → name ∈ args.map Prod.fst) :
    name ∈ (fillParams params skip names args).map Prod.fst := by
  by_cases hargs : name ∈ args.map Prod.fst
  · obtain ⟨m, hm, rfl⟩ := List.mem_map.mp hargs
    exact List.mem_map_of_mem (mem_fillParams.mpr (.inl hm))
  · refine List.mem_map.mpr ⟨(name, safeMinimalValue name params), ?_, rfl⟩
    exact mem_fillParams.mpr (.inr ⟨hname, fun h => hargs (hskip h), hargs, rfl⟩)

end Fill

/-! ## Substitution -/

section Substitution

variable {vars : Dict Str Str} {text : Str} {ms args : List (Str × Json φ)}

/-- The values of the variables bring in no braces. -/
def WithoutBraces (vars : Dict Str Str) : Prop :=
  ∀ val ∈ vars.values, ¬ openBraces <:+: val ∧ ¬ closeBraces <:+: val

/-- A text without braces is refused or left as it is. -/
theorem substituteStr_of_absent (h : ¬ openBraces <:+: text) :
    (∀ t, substituteStr vars text = .ok t → t = text) ∧
      (WithoutBraces vars → substituteStr vars text = .ok text) := by
  have hcut : Catalog.cut? openBraces text = none := by
    cases hcut : Catalog.cut? openBraces text with
    | none => rfl
    | some p =>
      rw [Catalog.cut?_eq_some hcut] at h
      exact absurd ((List.prefix_append _ _).isInfix.trans (List.suffix_append _ _).isInfix) h
  have htokens : ∀ n, Catalog.findTemplates n text = [] := by
    intro n
    cases n with
    | zero => rfl
    | succ n => rw [Catalog.findTemplates, hcut]
  have hreplace : ∀ items : List (Str × Str), items.foldl
      (fun result m => Catalog.replaceStr result (openBraces ++ m.1 ++ closeBraces) m.2) text =
        text := by
    intro items
    induction items with
    | nil => rfl
    | cons m items ih =>
      have hno : ¬ (openBraces ++ m.1 ++ closeBraces) <:+: text := fun hin => by
        rw [List.append_assoc] at hin
        exact h ((List.prefix_append _ _).isInfix.trans hin)
      rw [List.foldl_cons, Catalog.replaceStr_eq, Expand.expand_single_of_not_infix hno, ih]
  rw [substituteStr, htokens, List.all_nil, if_neg (by decide)]
  simp only [hreplace, if_neg h]
  refine ⟨fun t ht => ?_, fun hvars => if_neg ?_⟩
  · split at ht
    · cases ht
    · exact (Except.ok.inj ht).symm
  · simpa [WithoutBraces] using hvars

/-- Values without braces. -/
def Inert : Json φ → Prop
  | .str v => ¬ openBraces <:+: v
  | .int _ => True
  | .bool _ => True
  | _ => False

theorem Inert.substitute {j r : Json φ} (h : Inert j) (hr : substituteValue vars j = .ok r) :
    r = j := by
  cases j with
  | str v =>
    obtain ⟨t, ht, heq⟩ := bind_eq_ok_iff.mp hr
    rw [← (substituteStr_of_absent h).1 t ht]
    exact (Except.ok.inj heq).symm
  | int => exact (Except.ok.inj hr).symm
  | bool => exact (Except.ok.inj hr).symm
  | _ => exact h.elim

theorem Inert.ok {j : Json φ} (h : Inert j) (hvars : WithoutBraces vars) :
    substituteValue vars j = .ok j := by
  cases j with
  | str v =>
    rw [substituteValue, (substituteStr_of_absent h).2 hvars]
    rfl
  | int => rfl
  | bool => rfl
  | _ => exact h.elim

theorem checkTemplateEscape_eq_ok (h : ∀ m ∈ args, Inert m.2) :
    checkTemplateEscape args = .ok () := by
  refine if_neg fun hany => ?_
  obtain ⟨m, hm, hescapes⟩ := List.any_eq_true.mp hany
  have hinert := h m hm
  cases hv : m.2 with
  | str v =>
    rw [hv] at hinert hescapes
    exact hinert (of_decide_eq_true hescapes)
  | _ =>
    rw [hv] at hescapes
    cases hescapes

/-- What the subprocess makes of a payload and of other members `extra` of the catalog: it keeps the
name and the arguments, and it takes the payload for any variables without braces. -/
structure Survives (payload : List (Str × Json φ)) : Prop where
  kept : ∀ (vars : Dict Str Str) (extra : List (Str × Json φ)),
    (∀ m ∈ extra, m.1 ≠ lit "name" ∧ m.1 ≠ lit "arguments") → ∀ r,
      substituteProbePayload vars (.obj (payload ++ extra)) = .ok r →
        r.get? (lit "name") = (Json.obj payload).get? (lit "name") ∧
          r.get? (lit "arguments") = (Json.obj payload).get? (lit "arguments")
  taken : ∀ vars : Dict Str Str, WithoutBraces vars →
    substituteProbePayload vars (.obj payload) = .ok (.obj payload)

theorem substitute_obj (h : ∀ m ∈ args, Inert m.2) {r : Json φ}
    (hr : substituteValue vars (.obj args) = .ok r) : r = .obj args := by
  obtain ⟨hms, rfl⟩ := substituteValue_obj.mp hr
  have hself : ∀ m ∈ args, (m.1, substituted vars m.2) = m := fun m hm => by
    rw [(h m hm).substitute (Catalog.substituteValue_of_exists (hms m hm))]
  rw [List.map_congr_left hself, List.map_id']

theorem substituteValue_obj_self (h : ∀ m ∈ ms, substituteValue vars m.2 = .ok m.2) :
    substituteValue vars (.obj ms) = .ok (.obj ms) := by
  rw [substituteValue, Catalog.substituteMembers_of_forall (f := id) h]
  have hself : (ms.map fun m => (m.1, id m.2)) = ms := List.map_id ms
  rw [hself]
  rfl

theorem Inert.of_members {name : Str} (hname : ¬ openBraces <:+: name)
    (hargs : ∀ m ∈ args, Inert m.2) {r : Json φ}
    (hr : substituteValue vars (.obj (callPayload name args ++ ms)) = .ok r) :
    substituted vars (.str name : Json φ) = .str name ∧
      substituted vars (.obj args) = .obj args := by
  obtain ⟨hms, -⟩ := substituteValue_obj.mp hr
  have hfirst := Catalog.substituteValue_of_exists (hms _ List.mem_cons_self)
  have hsecond := Catalog.substituteValue_of_exists
    (hms _ (List.mem_cons_of_mem _ List.mem_cons_self))
  exact ⟨Inert.substitute (j := .str name) hname hfirst, substitute_obj hargs hsecond⟩

theorem survives_callPayload {name : Str} (hname : ¬ openBraces <:+: name)
    (hargs : ∀ m ∈ args, Inert m.2) : Survives (callPayload name args) := by
  constructor
  · intro vars extra _ r hr
    obtain ⟨hsubstName, hsubstArgs⟩ := Inert.of_members hname hargs hr
    rw [get?_of_substituteValue hr, get?_of_substituteValue hr]
    exact ⟨congrArg some hsubstName, congrArg some hsubstArgs⟩
  · intro vars hvars
    have hnormalised : WithoutBraces
        (Dict.ofList (vars.items.map fun m => (Catalog.stripBraces m.1, m.2))) := by
      intro val hval
      obtain ⟨k, hk⟩ := Dict.mem_values_iff.mp hval
      obtain ⟨m, hm, heq⟩ := List.mem_map.mp (mem_dictOf hk)
      exact hvars val (Dict.mem_values_iff.mpr ⟨m.1, by cases heq; exact hm⟩)
    refine substituteValue_obj_self (List.forall_mem_cons.mpr
      ⟨Inert.ok (j := .str name) hname hnormalised, List.forall_mem_singleton.mpr ?_⟩)
    exact substituteValue_obj_self fun m hm => (hargs m hm).ok hnormalised

end Substitution

/-! ## Conformance -/

section Conformance

variable {schema : List (Str × Json φ)} (s : FlatSchema schema) {value : Str}

structure ArgumentsConform (value : Str) (args : List (Str × Json φ)) : Prop where
  typed : ∀ m ∈ args, ∃ t, s.Declares m.1 t ∧ t.Accepts m.2
  required : ∀ name ∈ s.required, name ∈ args.map Prod.fst
  adversarial : ∃ name, s.Declares name .string ∧ (name, .str value) ∈ args

/-- A payload for a tool of the schema that carries the value. -/
structure Conforms (value : Str) (payload : List (Str × Json φ)) : Prop where
  arguments : ∃ args, (Json.obj payload).get? (lit "arguments") = some (.obj args) ∧
    ArgumentsConform s value args
  survives : Survives payload

/-- Arguments before they are filled up: strings that discovery has seen, with the value. -/
structure Seeded (value : Str) (args : List (Str × Json φ)) (skip : Option Str) : Prop where
  nonempty : args ≠ []
  seeded : ∀ m ∈ args, m.2 = .str value ∧ ∃ prop, (m.1, prop) ∈ s.seen ∧ HasType prop .string
  skipped : ∀ name, some name = skip → name ∈ args.map Prod.fst

variable {s} {args : List (Str × Json φ)} {skip : Option Str} {iter : List Str → List Str}

theorem FlatSchema.hasType_of_declares (s : FlatSchema schema) {m : Str × Json φ} {t : ParamType}
    (hm : m ∈ s.properties)
    (h : s.Declares m.1 t) : HasType m.2 t := by
  obtain ⟨prop, hprop, ht⟩ := h
  have heq := List.inj_on_of_nodup_map s.distinct hm hprop rfl
  rw [heq]
  exact ht

theorem FlatSchema.mem_seen_or_unseen (s : FlatSchema schema) {m : Str × Json φ}
    (hm : m ∈ s.properties) :
    m ∈ s.seen ∨ m ∈ s.unseen := by
  rw [← List.take_append_drop maxProperties s.properties] at hm
  exact List.mem_append.mp hm

variable (hiter : ∀ names name, name ∈ iter names ↔ name ∈ names)

include hiter

/-- The arguments conform once filled up exactly if no other type is required out of sight. -/
theorem argumentsConform_iff (h : Seeded s value args skip) :
    ArgumentsConform s value
      (fillRequiredParams iter args (parseInputSchema (.obj schema)) skip) ↔ s.UnseenStrings := by
  have hrequired : ∀ name, name ∈ iter (parseInputSchema (.obj schema)).requiredParams ↔
      name ∈ s.required := fun name => by
    rw [hiter, parseInputSchema_eq s]
  constructor
  · intro hconform m hm hname
    obtain ⟨arg, harg, hkey⟩ := List.mem_map.mp (hconform.required m.1 hname)
    obtain ⟨t, ht, haccepts⟩ := hconform.typed arg harg
    rw [hkey] at ht
    rcases mem_fillParams.mp harg with hargs | ⟨-, -, -, hv⟩
    · obtain ⟨-, prop, hprop, -⟩ := h.seeded arg hargs
      rw [hkey] at hprop
      exact absurd hprop (s.not_seen_of_unseen hm)
    · rw [hv, hkey, safeMinimalValue_unseen s hm] at haccepts
      cases t with
      | string => exact s.hasType_of_declares (List.mem_of_mem_drop hm) ht
      | _ => exact haccepts.elim
  · intro hunseen
    refine ⟨fun m hm => ?_, fun name hname => ?_, ?_⟩
    · rcases mem_fillParams.mp hm with hargs | ⟨hname, -, -, hv⟩
      · obtain ⟨hv, prop, hprop, ht⟩ := h.seeded m hargs
        refine ⟨.string, s.declares_of_seen hprop ht, ?_⟩
        rw [hv]
        trivial
      · have hreq := (hrequired m.1).mp hname
        obtain ⟨⟨name, prop⟩, hprop, rfl⟩ := List.mem_map.mp (s.declared m.1 hreq)
        rw [hv]
        rcases s.mem_seen_or_unseen hprop with hseen | hun
        · obtain ⟨t, ht⟩ := s.typed _ hprop
          exact ⟨t, ⟨prop, hprop, ht⟩, safeMinimalValue_seen s hseen ht⟩
        · rw [safeMinimalValue_unseen s hun]
          exact ⟨.string, ⟨prop, hprop, hunseen _ hun hreq⟩, trivial⟩
    · exact mem_keys_fillParams ((hrequired name).mpr hname) (h.skipped name)
    · obtain ⟨m, hm⟩ := List.exists_mem_of_ne_nil args h.nonempty
      obtain ⟨hv, prop, hprop, ht⟩ := h.seeded m hm
      refine ⟨m.1, s.declares_of_seen hprop ht, mem_fillParams.mpr (.inl ?_)⟩
      rw [← hv]
      exact hm

end Conformance

/-! ## Synthesis -/

section Synthesis

variable {value : Str} {catalogPayload : List (Str × Json φ)} {threatPattern : Str}

/-- The patterns that inject a value. -/
def injectingPatterns : List Str := [lit "oversize", lit "traversal", lit "injection"]

theorem extracted_not_infix (h : extractCatalogAdversarialValue catalogPayload = some value) :
    ¬ openBraces <:+: value := by
  unfold extractCatalogAdversarialValue at h
  split at h
  · obtain ⟨m, -, hm⟩ := List.exists_of_findSome?_eq_some h
    split at hm
    · obtain ⟨hvalue, heq⟩ := Option.ite_none_right_eq_some.mp hm
      cases heq
      exact hvalue.2
    · cases hm
  · cases h

theorem adversarialValue_not_infix (threatPattern : Str) (catalogPayload : List (Str × Json φ)) :
    ¬ openBraces <:+: adversarialValue threatPattern catalogPayload := by
  rw [adversarialValue]
  split
  · intro hin
    have hbrace : (123 : CodePoint) ∈ oversizeValue := hin.subset (by simp [openBraces])
    exact absurd (List.eq_of_mem_replicate hbrace) (by decide)
  split
  · decide
  · cases hvalue : extractCatalogAdversarialValue catalogPayload with
    | none => decide
    | some value => exact extracted_not_infix hvalue

theorem inert_safeMinimalValue (name : Str) (params : ParamNames) :
    Inert (safeMinimalValue name params : Json φ) := by
  have hempty : Inert (.str [] : Json φ) := by
    change ¬ openBraces <:+: []
    decide
  unfold safeMinimalValue
  split
  · exact hempty
  split
  · trivial
  split
  · trivial
  · exact hempty

variable {schema : List (Str × Json φ)} (s : FlatSchema schema) {lower : Str → Str}
  {iter : List Str → List Str} {tool : DiscoveredTool φ}

theorem mem_of_pickTraversalParam {params : ParamNames} {param : Str}
    (h : pickTraversalParam lower params = some param) : param ∈ params.stringParams := by
  unfold pickTraversalParam at h
  split at h
  · next hfind =>
    cases h
    exact List.mem_of_find?_eq_some hfind
  · exact List.mem_of_head? h

theorem pickTraversalParam_isSome (lower : Str → Str) {params : ParamNames}
    (h : params.stringParams ≠ []) :
    ∃ param, pickTraversalParam lower params = some param := by
  unfold pickTraversalParam
  split
  · exact ⟨_, rfl⟩
  · exact ⟨_, List.head?_eq_some_head h⟩

theorem pickTraversalParam_nil {params : ParamNames} (h : params.stringParams = []) :
    pickTraversalParam lower params = none := by
  rw [pickTraversalParam, h]
  rfl

theorem seeded_singleton {param : Str}
    (h : ∃ prop, (param, prop) ∈ s.seen ∧ HasType prop .string) :
    Seeded s value [(param, .str value)] (some param) where
  nonempty := List.cons_ne_nil _ _
  seeded := List.forall_mem_singleton.mpr ⟨rfl, h⟩
  skipped _ hname := List.mem_singleton.mpr (Option.some.inj hname)

/-- A tool with a string in sight gets a payload of its own. -/
theorem synthesize_of_seesString (lower : Str → Str) (iter : List Str → List Str)
    (catalogPayload : List (Str × Json φ)) (htool : tool.params = parseInputSchema (.obj schema))
    (hpattern : threatPattern ∈ injectingPatterns) (hseen : s.SeesString) :
    ∃ args skip, Seeded s (adversarialValue threatPattern catalogPayload) args skip ∧
      (checkTemplateEscape (fillRequiredParams iter args tool.params skip) = .ok () →
        synthesizeProbePayload lower iter tool threatPattern catalogPayload =
          .ok (callPayload tool.name (fillRequiredParams iter args tool.params skip))) := by
  have hmem : ∀ name ∈ tool.params.stringParams,
      ∃ prop, (name, prop) ∈ s.seen ∧ HasType prop .string := fun name hname => by
    rw [htool] at hname
    exact mem_stringParams.mp hname
  have hne : tool.params.stringParams ≠ [] := by
    obtain ⟨m, hm, ht⟩ := hseen
    rw [htool]
    exact List.ne_nil_of_mem (mem_stringParams.mpr ⟨m.2, hm, ht⟩)
  simp only [injectingPatterns, List.mem_cons, List.not_mem_nil, or_false] at hpattern
  rcases hpattern with rfl | rfl | rfl
  · refine ⟨tool.params.stringParams.map fun param => (param, .str oversizeValue), none,
      ⟨by simpa using hne, List.forall_mem_map.mpr fun name hname => ⟨rfl, hmem name hname⟩,
        nofun⟩, fun hcheck => ?_⟩
    rw [synthesizeProbePayload, if_neg (by decide), if_neg (by decide), if_pos rfl, if_neg hne]
    simp only [hcheck]
    rfl
  · obtain ⟨param, hparam⟩ := pickTraversalParam_isSome lower hne
    have hvalue : adversarialValue (lit "traversal") catalogPayload = traversalValue := rfl
    have hbraces := adversarialValue_not_infix (lit "traversal") catalogPayload
    refine ⟨_, _, seeded_singleton s (hmem param (mem_of_pickTraversalParam hparam)),
      fun hcheck => ?_⟩
    rw [hvalue] at hbraces hcheck ⊢
    rw [synthesizeProbePayload, if_neg (by decide), if_neg (by decide), if_neg (by decide),
      if_pos rfl, hparam]
    simp only [if_neg hbraces, hcheck]
    rfl
  · obtain ⟨param, names, hparams⟩ := List.exists_cons_of_ne_nil hne
    have hvalue : adversarialValue (lit "injection") catalogPayload =
        (extractCatalogAdversarialValue catalogPayload).getD injectionValue := rfl
    have hbraces := adversarialValue_not_infix (lit "injection") catalogPayload
    have hparam : param ∈ tool.params.stringParams := by
      rw [hparams]
      exact List.mem_cons_self
    refine ⟨_, _, seeded_singleton s (hmem param hparam), fun hcheck => ?_⟩
    rw [hvalue] at hbraces hcheck ⊢
    rw [synthesizeProbePayload, if_neg (by decide), if_neg (by decide), if_neg (by decide),
      if_neg (by decide), hparams]
    simp only [List.head?_cons, if_neg hbraces, hcheck]
    rfl

theorem synthesize_of_not_seesString (htool : tool.params = parseInputSchema (.obj schema))
    (hpattern : threatPattern ∈ injectingPatterns) (hseen : ¬ s.SeesString) :
    synthesizeProbePayload lower iter tool threatPattern catalogPayload = .ok catalogPayload := by
  have hnil : tool.params.stringParams = [] := by
    rw [htool]
    refine List.eq_nil_iff_forall_not_mem.mpr fun name hname => hseen ?_
    obtain ⟨prop, hprop, ht⟩ := mem_stringParams.mp hname
    exact ⟨_, hprop, ht⟩
  simp only [injectingPatterns, List.mem_cons, List.not_mem_nil, or_false] at hpattern
  rcases hpattern with rfl | rfl | rfl
  · rw [synthesizeProbePayload, if_neg (by decide), if_neg (by decide), if_pos rfl, if_pos hnil]
  · rw [synthesizeProbePayload, if_neg (by decide), if_neg (by decide), if_neg (by decide),
      if_pos rfl, pickTraversalParam_nil hnil]
  · rw [synthesizeProbePayload, if_neg (by decide), if_neg (by decide), if_neg (by decide),
      if_neg (by decide), hnil]
    rfl

theorem conforms_callPayload_iff {name : Str} {args : List (Str × Json φ)}
    (hname : ¬ openBraces <:+: name) (hargs : ∀ m ∈ args, Inert m.2) :
    Conforms s value (callPayload name args) ↔ ArgumentsConform s value args := by
  constructor
  · rintro ⟨⟨args', hget, hconform⟩, -⟩
    cases hget
    exact hconform
  · exact fun h => ⟨⟨args, rfl, h⟩, survives_callPayload hname hargs⟩

variable (hiter : ∀ names name, name ∈ iter names ↔ name ∈ names)

include hiter

/-- With a string in sight, the payload conforms exactly if no other type is required out of
sight. -/
theorem conforms_iff_of_seesString (hname : ¬ openBraces <:+: tool.name)
    (htool : tool.params = parseInputSchema (.obj schema))
    (hpattern : threatPattern ∈ injectingPatterns) (hseen : s.SeesString) :
    (∃ payload, synthesizeProbePayload lower iter tool threatPattern catalogPayload = .ok payload ∧
      Conforms s (adversarialValue threatPattern catalogPayload) payload) ↔ s.UnseenStrings := by
  obtain ⟨args, skip, hseeded, hsynth⟩ := synthesize_of_seesString s lower iter catalogPayload
    htool hpattern hseen
  have hinert : ∀ m ∈ fillRequiredParams iter args tool.params skip, Inert m.2 := fun m hm => by
    rcases mem_fillParams.mp hm with hargs | ⟨-, -, -, hv⟩
    · rw [(hseeded.seeded m hargs).1]
      exact adversarialValue_not_infix threatPattern catalogPayload
    · rw [hv]
      exact inert_safeMinimalValue m.1 tool.params
  rw [hsynth (checkTemplateEscape_eq_ok hinert), ← argumentsConform_iff hiter hseeded, ← htool,
    ← conforms_callPayload_iff s hname hinert]
  constructor
  · rintro ⟨payload, heq, hconform⟩
    cases heq
    exact hconform
  · exact fun h => ⟨_, rfl, h⟩

omit s in
/-- A synthesized payload conforms to a schema of plain properties exactly if discovery sees a
string of it and no other type is required out of sight; where it sees none, if the catalog has a
conforming payload. -/
theorem synthesized_conforms_iff [PyFloat φ] (lower : Str → Str) {str : Json φ → Str}
    {entry : Json φ} (htool : toolDictToDiscovered str entry = some tool)
    (s : FlatSchema tool.inputSchema) (hpattern : threatPattern ∈ injectingPatterns)
    (catalogPayload : List (Str × Json φ)) :
    (∃ payload, synthesizeProbePayload lower iter tool threatPattern catalogPayload = .ok payload ∧
      Conforms s (adversarialValue threatPattern catalogPayload) payload) ↔
      s.SeesString ∧ s.UnseenStrings ∨
        ¬ s.SeesString ∧ Conforms s (adversarialValue threatPattern catalogPayload) catalogPayload := by
  obtain ⟨hvalid, hparams⟩ := of_discovered htool
  by_cases hseen : s.SeesString
  · have hname : ¬ openBraces <:+: tool.name := fun hin =>
      not_mem_of_validateToolName hvalid (hin.subset List.mem_cons_self)
    rw [conforms_iff_of_seesString s hiter hname hparams hpattern hseen]
    simp only [hseen, true_and, not_true_eq_false, false_and, or_false]
  · rw [synthesize_of_not_seesString s hparams hpattern hseen]
    simp only [hseen, false_and, not_false_eq_true, true_and, false_or, Except.ok.injEq,
      exists_eq_left']

end Synthesis

section Example

private def typed (name : Str) (t : ParamType) : Str × Json WholeFloat :=
  (name, .obj [(lit "type", .str t.name)])

private def schemaOf (properties : List (Str × ParamType)) (required : List Str) :
    List (Str × Json WholeFloat) :=
  [(lit "properties", .obj (properties.map fun p => typed p.1 p.2)),
    (lit "required", .arr (required.map .str))]

private def toolOf (schema : List (Str × Json WholeFloat)) : DiscoveredTool WholeFloat :=
  ⟨lit "search", [], schema, parseInputSchema (.obj schema)⟩

private def entryOf (schema : List (Str × Json WholeFloat)) : Json WholeFloat :=
  .obj [(lit "name", .str (lit "search")), (lit "inputSchema", .obj schema)]

private theorem discovered_entryOf {schema : List (Str × Json WholeFloat)}
    (h : ¬ (dumps (.obj schema)).length > schemaSizeLimitBytes) :
    toolDictToDiscovered (fun _ => []) (entryOf schema) = some (toolOf schema) := by
  have hname : ((entryOf schema).get? (lit "name")).getD (.str []) = .str (lit "search") := rfl
  have hschema : (entryOf schema).get? (lit "inputSchema") = some (.obj schema) := rfl
  have hvalid : ¬ validateToolName (lit "search") = false := by decide
  rw [entryOf] at hname hschema ⊢
  rw [toolDictToDiscovered]
  simp only [hname, hschema, if_neg hvalid, if_neg h]
  rfl

private def flat (properties : List (Str × ParamType)) (required : List Str)
    (hdistinct : (properties.map Prod.fst).Nodup)
    (hrequired : ∀ name ∈ required, name ∈ properties.map Prod.fst) :
    FlatSchema (schemaOf properties required) where
  properties := properties.map fun p => typed p.1 p.2
  properties_eq := rfl
  distinct := by
    rw [List.map_map]
    exact hdistinct
  typed := List.forall_mem_map.mpr fun p _ => ⟨p.2, _, rfl, rfl⟩
  required := required
  required_eq := rfl
  declared := by
    rw [List.map_map]
    exact hrequired

private theorem memId (names : List Str) (name : Str) : name ∈ id names ↔ name ∈ names := Iff.rfl

/-- A string, and behind 63 flags a required limit. -/
private def crowded : List (Str × ParamType) :=
  (lit "query", .string) ::
    (List.range 63).map (fun n => (List.replicate (n + 1) 102, .boolean)) ++ [(lit "limit", .integer)]

/-- The limit becomes a string. -/
theorem crowded_nonconforming : ¬ ∀ (lower : Str → Str) (iter : List Str → List Str),
    (∀ names name, name ∈ iter names ↔ name ∈ names) →
    ∀ (entry : Json WholeFloat) (tool : DiscoveredTool WholeFloat),
      toolDictToDiscovered (fun _ => []) entry = some tool →
    ∀ (s : FlatSchema tool.inputSchema), (∃ name, s.Declares name .string) →
    ∀ threatPattern ∈ injectingPatterns, ∀ catalogPayload, ∃ payload,
      synthesizeProbePayload lower iter tool threatPattern catalogPayload = .ok payload ∧
        Conforms s (adversarialValue threatPattern catalogPayload) payload := by
  intro h
  have hsize : ¬ (dumps (.obj (schemaOf crowded [lit "limit"]))).length > schemaSizeLimitBytes := by
    decide +kernel
  let s : FlatSchema (schemaOf crowded [lit "limit"]) :=
    flat crowded [lit "limit"] (by decide +kernel) (by decide +kernel)
  have hseen : s.SeesString := ⟨typed (lit "query") .string, List.mem_cons_self, _, rfl, rfl⟩
  have hunseen : s.unseen = [typed (lit "limit") .integer] := rfl
  have hconform := h id id memId (entryOf _) _ (discovered_entryOf hsize) s
    ⟨lit "query", _, List.mem_cons_self, _, rfl, rfl⟩ (lit "oversize") (by decide) []
  have hunseenStrings := (conforms_iff_of_seesString s memId (by decide)
    (of_discovered (discovered_entryOf hsize)).2 (by decide) hseen).mp hconform
  have hlimit := hunseenStrings (typed (lit "limit") .integer)
    (hunseen ▸ List.mem_singleton_self _) (List.mem_singleton_self _)
  cases hlimit.unique ⟨_, rfl, rfl⟩

private def pair : List (Str × ParamType) := [(lit "query", .string), (lit "limit", .integer)]

private def pairSchema : FlatSchema (schemaOf pair [lit "query", lit "limit"]) :=
  flat pair _ (by decide +kernel) (by decide +kernel)

/-- A schema of a string and a limit gets both, each of its type. -/
theorem synthesized_conforms_pair : ∃ payload, synthesizeProbePayload id id
      (toolOf (schemaOf pair [lit "query", lit "limit"])) (lit "traversal") [] = .ok payload ∧
        Conforms pairSchema traversalValue payload := by
  have hsize : ¬ (dumps (.obj (schemaOf pair [lit "query", lit "limit"]))).length >
      schemaSizeLimitBytes := by
    decide +kernel
  have hpattern : lit "traversal" ∈ injectingPatterns := by decide
  have hiff := synthesized_conforms_iff memId id (discovered_entryOf hsize) pairSchema hpattern []
  refine hiff.mpr (.inl ⟨?_, ?_⟩)
  · exact ⟨typed (lit "query") .string, List.mem_cons_self, _, rfl, rfl⟩
  · exact fun m hm => nomatch hm

end Example

end CosaiMcp.Scan
