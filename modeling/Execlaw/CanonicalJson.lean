import Execlaw.JsonWrite
import Execlaw.ToolChains
/-!
# CanonicalJson — values by their hash

`write_canonical_json` writes a value with the keys of every object in order, and `tool_schema_hash` is the hash of these
bytes; the approval of a plan is bound to the hash of its effects.  Two values have one canonical text exactly where they
differ in the order of keys only (`writeCanonical_eq_iff`).
-/
namespace Json

/-! ## The code -/

def writeEntries (index : Nat) : List (String × List Char) → List Char
  | [] => []
  | (key, text) :: entries => comma index ++ writeStr key ++ ':' :: text ++ writeEntries (index + 1) entries

mutual
def writeCanonical : Json → List Char
  | .obj members =>
    '\x7b' :: (writeEntries 0 ((canonicalEntries members).mergeSort fun left right => left.1 ≤ right.1) ++ ['\x7d'])
  | .arr items => '[' :: (writeCanonicalItems 0 items ++ [']'])
  | .null => write .null
  | .bool b => write (.bool b)
  | .num text => write (.num text)
  | .str s => write (.str s)

def writeCanonicalItems (index : Nat) : List Json → List Char
  | [] => []
  | v :: items => comma index ++ writeCanonical v ++ writeCanonicalItems (index + 1) items

def canonicalEntries : List (String × Json) → List (String × List Char)
  | [] => []
  | (key, v) :: members => (key, writeCanonical v) :: canonicalEntries members
end

/-! ## Values up to the order of keys -/

inductive Reordered : Json → Json → Prop
  | refl (v : Json) : Reordered v v
  | trans {u v w : Json} : Reordered u v → Reordered v w → Reordered u w
  | keys {members members' : List (String × Json)} : members.Perm members' → Reordered (.obj members) (.obj members')
  | item {v w : Json} (pre post : List Json) : Reordered v w → Reordered (.arr (pre ++ v :: post)) (.arr (pre ++ w :: post))
  | member {v w : Json} (pre : List (String × Json)) (key : String) (post : List (String × Json)) :
      Reordered v w → Reordered (.obj (pre ++ (key, v) :: post)) (.obj (pre ++ (key, w) :: post))

mutual
def sortKeys : Json → Json
  | .obj members => .obj ((sortMembers members).mergeSort fun left right => left.1 ≤ right.1)
  | .arr items => .arr (sortItems items)
  | .null => .null
  | .bool b => .bool b
  | .num text => .num text
  | .str s => .str s

def sortItems : List Json → List Json
  | [] => []
  | v :: items => sortKeys v :: sortItems items

def sortMembers : List (String × Json) → List (String × Json)
  | [] => []
  | (key, v) :: members => (key, sortKeys v) :: sortMembers members
end

variable {v w : Json}

theorem sortItems_eq : ∀ items : List Json, sortItems items = items.map sortKeys
  | [] => by rw [sortItems, List.map_nil]
  | v :: items => by rw [sortItems, sortItems_eq items, List.map_cons]

theorem sortMembers_eq : ∀ members : List (String × Json), sortMembers members = members.map fun m => (m.1, sortKeys m.2)
  | [] => by rw [sortMembers, List.map_nil]
  | (key, v) :: members => by rw [sortMembers, sortMembers_eq members, List.map_cons]

theorem canonicalEntries_eq : ∀ members : List (String × Json),
    canonicalEntries members = members.map fun m => (m.1, writeCanonical m.2)
  | [] => by rw [canonicalEntries, List.map_nil]
  | (key, v) :: members => by rw [canonicalEntries, canonicalEntries_eq members, List.map_cons]

/-! ## The canonical text -/

theorem writeEntries_map : ∀ (members : List (String × Json)) (index : Nat),
    writeEntries index (members.map fun m => (m.1, write m.2)) = writeMembers index members
  | [], _ => by rw [List.map_nil, writeEntries, writeMembers]
  | (key, v) :: members, index => by rw [List.map_cons, writeEntries, writeMembers, writeEntries_map members]

theorem writeCanonicalItems_eq : ∀ (items : List Json) (index : Nat), (∀ v ∈ items, writeCanonical v = write (sortKeys v)) →
    writeCanonicalItems index items = writeItems index (items.map sortKeys)
  | [], _, _ => by rw [writeCanonicalItems, List.map_nil, writeItems]
  | v :: items, index, h => by
    rw [writeCanonicalItems, List.map_cons, writeItems, h v (by simp),
      writeCanonicalItems_eq items (index + 1) fun v hv => h v (by simp [hv])]

theorem writeCanonical_eq (v : Json) : writeCanonical v = write (sortKeys v) := by
  induction v using induct with
  | null | bool | num | str => simp only [writeCanonical, sortKeys]
  | arr items ih => rw [writeCanonical, sortKeys, write, sortItems_eq, writeCanonicalItems_eq items 0 ih]
  | obj members ih =>
    have hentries : canonicalEntries members = (sortMembers members).map fun m => (m.1, write m.2) := by
      rw [canonicalEntries_eq, sortMembers_eq, List.map_map]
      exact List.map_congr_left fun m hm => by simp [ih m hm]
    rw [writeCanonical, sortKeys, write, hentries, ← writeEntries_map]
    congr 3
    refine (List.map_mergeSort ?_).symm
    exact fun _ _ _ _ => rfl

/-! ## Sorting reorders -/

theorem Reordered.symm (h : Reordered v w) : Reordered w v := by
  induction h with
  | refl v => exact .refl v
  | trans _ _ ih ih' => exact ih'.trans ih
  | keys hp => exact .keys hp.symm
  | item pre post _ ih => exact .item pre post ih
  | member pre key post _ ih => exact .member pre key post ih

theorem Reordered.items (f : Json → Json) : ∀ (items pre : List Json), (∀ v ∈ items, Reordered v (f v)) →
    Reordered (.arr (pre ++ items)) (.arr (pre ++ items.map f))
  | [], _, _ => .refl _
  | v :: items, pre, h => by
    have hrest := Reordered.items f items (pre ++ [f v]) fun v hv => h v (by simp [hv])
    simp only [List.append_assoc, List.singleton_append] at hrest
    exact (Reordered.item pre items (h v (by simp))).trans hrest

theorem Reordered.members (f : Json → Json) : ∀ (members pre : List (String × Json)),
    (∀ m ∈ members, Reordered m.2 (f m.2)) →
    Reordered (.obj (pre ++ members)) (.obj (pre ++ members.map fun m => (m.1, f m.2)))
  | [], _, _ => .refl _
  | (key, v) :: members, pre, h => by
    have hrest := Reordered.members f members (pre ++ [(key, f v)]) fun m hm => h m (by simp [hm])
    simp only [List.append_assoc, List.singleton_append] at hrest
    exact (Reordered.member pre key members (h (key, v) (by simp))).trans hrest

theorem reordered_sortKeys (v : Json) : Reordered v (sortKeys v) := by
  induction v using induct with
  | null | bool | num | str => rw [sortKeys]; exact .refl _
  | arr items ih =>
    rw [sortKeys, sortItems_eq]
    exact Reordered.items sortKeys items [] ih
  | obj members ih =>
    rw [sortKeys, sortMembers_eq]
    exact (Reordered.members sortKeys members [] ih).trans (.keys (List.mergeSort_perm _ _).symm)

/-! ## Reordering changes no text -/

theorem Reordered.value (h : Reordered v w) : Value v → Value w := by
  induction h with
  | refl v => exact id
  | trans _ _ ih ih' => exact fun hv => ih' (ih hv)
  | keys hp =>
    rintro (_ | _ | _ | _ | _ | ⟨hkeys, hm⟩)
    exact .obj ((hp.map Prod.fst).nodup_iff.1 hkeys) fun m hm' => hm m (hp.mem_iff.2 hm')
  | @item v w pre post _ ih =>
    rintro (_ | _ | _ | _ | hi)
    refine .arr fun u hu => ?_
    rcases List.mem_append.1 hu with hu | hu
    · exact hi u (by simp [hu])
    · rcases List.mem_cons.1 hu with rfl | hu
      · exact ih (hi v (by simp))
      · exact hi u (by simp [hu])
  | @member v w pre key post _ ih =>
    rintro (_ | _ | _ | _ | _ | ⟨hkeys, hm⟩)
    refine .obj (by simpa using hkeys) fun m hm' => ?_
    rcases List.mem_append.1 hm' with hm' | hm'
    · exact hm m (by simp [hm'])
    · rcases List.mem_cons.1 hm' with rfl | hm'
      · exact ih (hm (key, v) (by simp))
      · exact hm m (by simp [hm'])

theorem mergeSort_eq_of_perm {l l' : List (String × Json)} (hp : l.Perm l') (hkeys : (l.map Prod.fst).Nodup) :
    (l.mergeSort fun left right => left.1 ≤ right.1) = l'.mergeSort fun left right => left.1 ≤ right.1 := by
  have hsorted : ∀ l : List (String × Json),
      (l.mergeSort fun left right => left.1 ≤ right.1).Pairwise fun left right => left.1 ≤ right.1 := by
    intro l
    have h := @List.pairwise_mergeSort _ (fun left right : String × Json => left.1 ≤ right.1)
      (fun _ _ _ hab hbc => decide_eq_true (String.le_trans (of_decide_eq_true hab) (of_decide_eq_true hbc)))
      (fun a b => by simpa using String.le_total a.1 b.1) l
    simpa using h
  refine List.Perm.eq_of_pairwise (fun a b ha hb hab hba => ?_) (hsorted l) (hsorted l')
    ((List.mergeSort_perm l _).trans (hp.trans (List.mergeSort_perm l' _).symm))
  have ha : a ∈ l := (List.mergeSort_perm l _).mem_iff.1 ha
  have hb : b ∈ l := hp.mem_iff.2 ((List.mergeSort_perm l' _).mem_iff.1 hb)
  exact List.inj_on_of_nodup_map hkeys ha hb (String.le_antisymm hab hba)

theorem Reordered.sortKeys_eq (h : Reordered v w) : Value v → sortKeys v = sortKeys w := by
  induction h with
  | refl v => exact fun _ => rfl
  | trans h _ ih ih' => exact fun hv => (ih hv).trans (ih' (h.value hv))
  | @keys members members' hp =>
    rintro (_ | _ | _ | _ | _ | ⟨hkeys, -⟩)
    rw [sortKeys, sortKeys, sortMembers_eq, sortMembers_eq, mergeSort_eq_of_perm (hp.map _)]
    simpa [Function.comp_def] using hkeys
  | item pre post _ ih =>
    rintro (_ | _ | _ | _ | hi)
    rw [sortKeys, sortKeys, sortItems_eq, sortItems_eq]
    simp [ih (hi _ (by simp))]
  | member pre key post _ ih =>
    rintro (_ | _ | _ | _ | _ | ⟨-, hm⟩)
    rw [sortKeys, sortKeys, sortMembers_eq, sortMembers_eq]
    simp [ih (hm (key, _) (by simp))]

theorem writeCanonical_eq_iff (hv : Value v) (hw : Value w) : writeCanonical v = writeCanonical w ↔ Reordered v w := by
  rw [writeCanonical_eq, writeCanonical_eq]
  constructor
  · intro h
    have hsort := write_inj ((reordered_sortKeys v).value hv) ((reordered_sortKeys w).value hw) h
    exact (reordered_sortKeys v).trans (hsort ▸ (reordered_sortKeys w).symm)
  · exact fun h => by rw [h.sortKeys_eq hv]

end Json

namespace Execlaw

open Json

/-! ## Hashes of values -/

/-- What `write_canonical_json` leaves in its output. -/
def canonicalBytes (v : Json) : List UInt8 := Wire.utf8 (String.ofList (writeCanonical v))

variable (sha256 : List UInt8 → List UInt8)

def toolSchemaHash (schema : Json) : String := String.ofList (Wire.hexEncode (sha256 (canonicalBytes schema)))

theorem canonicalBytes_eq_iff {v w : Json} (hv : Value v) (hw : Value w) :
    canonicalBytes v = canonicalBytes w ↔ Reordered v w := by
  rw [← writeCanonical_eq_iff hv hw]
  exact ⟨fun h => String.ofList_injective (Wire.utf8_inj h), fun h => by rw [canonicalBytes, h, canonicalBytes]⟩

variable {sha256}

theorem toolSchemaHash_eq_iff (hsha : Function.Injective sha256) {v w : Json} (hv : Value v) (hw : Value w) :
    toolSchemaHash sha256 v = toolSchemaHash sha256 w ↔ Reordered v w := by
  rw [← canonicalBytes_eq_iff hv hw]
  exact ⟨fun h => hsha (Wire.hexEncode_inj (String.ofList_injective h)), fun h => by rw [toolSchemaHash, h, toolSchemaHash]⟩

/-! ## The effects of a plan -/

def optionJson : Option String → Json
  | none => .null
  | some s => .str s

def ResourceVersionPrecondition.json (p : ResourceVersionPrecondition) : Json :=
  .obj [("resource_key", .str p.resourceKey), ("expected_version", optionJson p.expectedVersion),
    ("conditional_updates", .bool p.conditionalUpdates)]

-- A payload is the value its text stands for.
variable (payload : String → Json)

def CompensationSpec.json (c : CompensationSpec) : Json :=
  .obj [("label", .str c.label), ("effect_kind", .str c.effectKind), ("payload", payload c.payload),
    ("resource_keys", .arr (c.resourceKeys.map .str))]

def StoredStep.json (step : StoredStep) : Json :=
  .obj [("step_index", .num (toString step.stepIndex)), ("label", .str step.label),
    ("effect_kind", optionJson step.effectKind), ("payload", payload step.payload),
    ("resource_preconditions", .arr (step.resourcePreconditions.map (·.json))),
    ("compensation", (step.compensation.map (·.json payload)).getD .null),
    ("idempotency_key_override", optionJson step.idempotencyKeyOverride)]

def effectsJson (steps : List StoredStep) : Json := .arr (steps.map (·.json payload))

variable (sha256) in
def hashingCodec (encode : ChainEffect → Except String (List UInt8)) : ChainCodec where
  hash steps := toolSchemaHash sha256 (effectsJson payload steps)
  encode := encode

theorem optionJson_value (o : Option String) : Value (optionJson o) := by
  cases o <;> constructor

theorem num_value (n : Nat) : Value (.num (toString n)) := by
  have hdigits : (toString n).toList = Nat.toDigits 10 n := Nat.toList_repr
  refine .num (fun h => ?_) fun c hc => ?_
  · rw [h] at hdigits
    exact Nat.toDigits_ne_nil hdigits.symm
  · rw [hdigits] at hc
    have hdigit := Nat.isDigit_of_mem_toDigits (by decide) (by decide) hc
    obtain ⟨hlo, hhi⟩ : 48 ≤ c.toNat ∧ c.toNat ≤ 57 := by simpa [Char.isDigit, UInt32.le_iff_toNat_le] using hdigit
    have hall : ∀ i : Fin 58, 48 ≤ i.val → Char.ofNat i ∈ numberLetters := by decide
    simpa using hall ⟨c.toNat, by omega⟩ hlo

theorem ResourceVersionPrecondition.json_value (p : ResourceVersionPrecondition) : Value p.json := by
  refine .obj (by simp) ?_
  simpa using ⟨.str _, optionJson_value _, .bool _⟩

variable {payload}

theorem CompensationSpec.json_value (hpayload : ∀ text, Value (payload text)) (c : CompensationSpec) :
    Value (c.json payload) := by
  have hkeys : Value (.arr (c.resourceKeys.map .str)) := .arr (by simpa using fun s _ => .str s)
  refine .obj (by simp) ?_
  simpa using ⟨.str _, .str _, hpayload _, hkeys⟩

theorem StoredStep.json_value (hpayload : ∀ text, Value (payload text)) (step : StoredStep) :
    Value (step.json payload) := by
  have hpre : Value (.arr (step.resourcePreconditions.map (·.json))) :=
    .arr (by simpa using fun p _ => ResourceVersionPrecondition.json_value p)
  have hcomp : Value ((step.compensation.map (·.json payload)).getD .null) := by
    cases step.compensation with
    | none => exact .null
    | some c => exact CompensationSpec.json_value hpayload c
  refine .obj (by simp) ?_
  simpa using ⟨num_value _, .str _, optionJson_value _, hpayload _, hpre, hcomp, optionJson_value _⟩

theorem effectsJson_value (hpayload : ∀ text, Value (payload text)) (steps : List StoredStep) :
    Value (effectsJson payload steps) :=
  .arr (by simpa using fun step _ => StoredStep.json_value hpayload step)

/-- **The canonical bytes identify a value** up to the order of keys at every depth, and so do the two hashes. -/
theorem canonical_identity (hsha : Function.Injective sha256) (hpayload : ∀ text, Value (payload text))
    (encode : ChainEffect → Except String (List UInt8)) :
    (∀ v w, Value v → Value w → (canonicalBytes v = canonicalBytes w ↔ Reordered v w) ∧
      (toolSchemaHash sha256 v = toolSchemaHash sha256 w ↔ Reordered v w)) ∧
    ∀ p q : StoredPlan,
      approvalEffectHash (hashingCodec sha256 payload encode) p =
        approvalEffectHash (hashingCodec sha256 payload encode) q ↔
      Reordered (effectsJson payload (p.steps.filter (fun step => step.effectKind.isSome)))
        (effectsJson payload (q.steps.filter (fun step => step.effectKind.isSome))) :=
  ⟨fun _ _ hv hw => ⟨canonicalBytes_eq_iff hv hw, toolSchemaHash_eq_iff hsha hv hw⟩, fun _ _ =>
    toolSchemaHash_eq_iff hsha (effectsJson_value hpayload _) (effectsJson_value hpayload _)⟩

theorem canonical_identity_swapped :
    toolSchemaHash id (.obj [("type", .str "object"), ("additionalProperties", .bool false)]) =
      toolSchemaHash id (.obj [("additionalProperties", .bool false), ("type", .str "object")]) := by
  have hboth := canonical_identity Function.injective_id (fun text => Value.str text) fun _ => .ok []
  refine ((hboth.1 _ _ (.obj (by simp) ?_) (.obj (by simp) ?_)).2).2 (.keys (List.Perm.swap _ _ _))
  · simpa using ⟨.str _, .bool _⟩
  · simpa using ⟨.bool _, .str _⟩

end Execlaw
