import TextualData.Document.Json
import TextualData.Document.Yaml.Basic
import TextualData.Proofs.NumeralText
import TextualData.Proofs.QuotedKeys
import TextualData.Value.Plain

/-!
# Values of documents

A tree has the same value as a JSON document and as a YAML document, with any tags in the latter. It
has none exactly if a null occurs in it. If all numbers in it are integers of 64 bits, the JSON
document that is written for the value is the tree again, with everything in its order.
-/

namespace TextualData

namespace Json

/-- Trees of nulls, booleans, integers of 64 bits, strings, arrays, and objects whose members have
distinct names. -/
inductive IsExact : Json → Prop where
  | null : IsExact .null
  | boolean (b : Bool) : IsExact (.boolean b)
  | integer (n : Int64) : IsExact (.number (.whole n.toInt))
  | string (s : String) : IsExact (.string s)
  | array {items : List Json} (inner : ∀ t ∈ items, IsExact t) : IsExact (.array items)
  | object {members : Entries Json} (distinct : members.HasDistinctKeys)
      (inner : ∀ m ∈ members, IsExact m.2) : IsExact (.object members)

/-- A null occurs somewhere in the tree. -/
inductive HasNull : Json → Prop where
  | null : HasNull .null
  | array {items : List Json} {t : Json} (mem : t ∈ items) (inner : HasNull t) :
      HasNull (.array items)
  | object {members : Entries Json} {m : String × Json} (mem : m ∈ members) (inner : HasNull m.2) :
      HasNull (.object members)

mutual

/-- The tree as a YAML document, without tags. -/
def toYaml : Json → Yaml
  | null => .null
  | boolean b => .boolean b
  | number n => .number n
  | string s => .string s
  | array items => .sequence (toYamlItems items)
  | object members => .mapping (toYamlEntries members)

/-- Trees as items of a YAML document. -/
def toYamlItems : List Json → List Yaml
  | [] => []
  | t :: ts => toYaml t :: toYamlItems ts

/-- Members as entries of a YAML document. -/
def toYamlEntries : List (String × Json) → List (Yaml × Yaml)
  | [] => []
  | (name, t) :: ts => (.string name, toYaml t) :: toYamlEntries ts

end

end Json

namespace Yaml

mutual

/-- The tree without its tags; those of keys are kept. -/
def withoutTags : Yaml → Yaml
  | null => .null
  | boolean b => .boolean b
  | number n => .number n
  | string s => .string s
  | sequence items => .sequence (withoutTagsItems items)
  | mapping entries => .mapping (withoutTagsEntries entries)
  | tagged _ node => withoutTags node

/-- Trees without their tags. -/
def withoutTagsItems : List Yaml → List Yaml
  | [] => []
  | t :: ts => withoutTags t :: withoutTagsItems ts

/-- Entries without the tags in their values. -/
def withoutTagsEntries : List (Yaml × Yaml) → List (Yaml × Yaml)
  | [] => []
  | (key, t) :: ts => (key, withoutTags t) :: withoutTagsEntries ts

end

end Yaml

namespace Plain

mutual

/-- The JSON document that is written for plain data. A double that is not finite becomes a null. -/
def toJson : Plain → Json
  | text s => .string s
  | integer n => .number (.whole n.toInt)
  | float f => if f.isFinite then .number (.float f) else .null
  | flag b => .boolean b
  | list items => .array (toJsonItems items)
  | record fields => .object (toJsonMembers fields)

/-- Plain data as items of a JSON document. -/
def toJsonItems : List Plain → List Json
  | [] => []
  | d :: ds => toJson d :: toJsonItems ds

/-- Fields as members of a JSON document. -/
def toJsonMembers : List (String × Plain) → List (String × Json)
  | [] => []
  | (name, d) :: ds => (name, toJson d) :: toJsonMembers ds

end

end Plain

/-! ### Tags -/

namespace Yaml

mutual

/-- Tags have no meaning for the value of a tree. -/
theorem toValue_withoutTags : ∀ t : Yaml, t.withoutTags.toValue = t.toValue
  | null => rfl
  | boolean _ => rfl
  | number _ => rfl
  | string _ => rfl
  | sequence items => by
    rw [withoutTags, toValue, toValue, toValues_withoutTagsItems items]
  | mapping entries => by
    rw [withoutTags, toValue, toValue, toEntries_withoutTagsEntries [] entries]
  | tagged _ node => by
    rw [withoutTags, toValue, toValue_withoutTags node]

theorem toValues_withoutTagsItems : ∀ ts : List Yaml, toValues (withoutTagsItems ts) = toValues ts
  | [] => rfl
  | t :: ts => by
    rw [withoutTagsItems, toValues, toValues, toValue_withoutTags t, toValues_withoutTagsItems ts]

theorem toEntries_withoutTagsEntries : ∀ (h : Hash) (ts : List (Yaml × Yaml)),
    toEntries h (withoutTagsEntries ts) = toEntries h ts
  | _, [] => rfl
  | h, (key, t) :: ts => by
    cases key with
    | string key =>
      have hmore : ∀ v, toEntries (Entries.insert h key v) (withoutTagsEntries ts) =
          toEntries (Entries.insert h key v) ts :=
        fun v => toEntries_withoutTagsEntries (Entries.insert h key v) ts
      simp only [withoutTagsEntries, toEntries, toValue_withoutTags t, hmore]
    | _ => rfl

end

end Yaml

/-! ### Values -/

namespace Json

/-- What comes of a tree: nothing, because of a null in it, or the same value in both documents,
whose plain form is the tree. -/
inductive Converts (t : Json) : Prop where
  | refused (hasNull : t.HasNull) (json : t.toValue = .error .jsonNull)
      (yaml : t.toYaml.toValue = .error .yamlNull)
  | valued (noNull : ¬t.HasNull) (v : Value) (json : t.toValue = .ok v)
      (yaml : t.toYaml.toValue = .ok v) (plain : ∃ p, v.toPlain? = some p ∧ p.toJson = t)

/-- What comes of items. -/
inductive ConvertsItems (items : List Json) : Prop where
  | refused (hasNull : ∃ t ∈ items, HasNull t) (json : toValues items = .error .jsonNull)
      (yaml : Yaml.toValues (toYamlItems items) = .error .yamlNull)
  | valued (noNull : ¬∃ t ∈ items, HasNull t) (vs : List Value) (json : toValues items = .ok vs)
      (yaml : Yaml.toValues (toYamlItems items) = .ok vs)
      (plain : ∃ ps, Value.toPlainItems? vs = some ps ∧ Plain.toJsonItems ps = items)

/-- What comes of members. In a YAML document they are added to the ones before them. -/
inductive ConvertsMembers (members : Entries Json) : Prop where
  | refused (hasNull : ∃ m ∈ members, HasNull m.2) (json : toEntries members = .error .jsonNull)
      (yaml : ∀ h, Yaml.toEntries h (toYamlEntries members) = .error .yamlNull)
  | valued (noNull : ¬∃ m ∈ members, HasNull m.2) (es : Hash) (json : toEntries members = .ok es)
      (yaml : ∀ h : Hash, Entries.HasDistinctKeys (h ++ es) →
        Yaml.toEntries h (toYamlEntries members) = .ok (h ++ es))
      (keys : es.keys = members.keys)
      (plain : ∃ ps, Value.toPlainEntries? es = some ps ∧ Plain.toJsonMembers ps = members)

variable {t : Json} {items : List Json} {members : Entries Json}

theorem hasNull_array : HasNull (.array items) ↔ ∃ t ∈ items, HasNull t := by
  constructor
  · rintro (_ | ⟨mem, inner⟩)
    exact ⟨_, mem, inner⟩
  · rintro ⟨t, mem, inner⟩
    exact .array mem inner

theorem hasNull_object : HasNull (.object members) ↔ ∃ m ∈ members, HasNull m.2 := by
  constructor
  · rintro (_ | _ | ⟨mem, inner⟩)
    exact ⟨_, mem, inner⟩
  · rintro ⟨m, mem, inner⟩
    exact .object mem inner

theorem convertsItems (inner : ∀ t ∈ items, Converts t) : ConvertsItems items := by
  induction items with
  | nil => exact .valued (by simp) [] rfl rfl ⟨[], rfl, rfl⟩
  | cons t ts ih =>
    have hmore := ih fun u hu => inner u (List.mem_cons_of_mem t hu)
    cases inner t (by simp) with
    | refused hasNull json yaml =>
      refine .refused ⟨t, by simp, hasNull⟩ ?_ ?_
      · rw [toValues, json]
        rfl
      · rw [toYamlItems, Yaml.toValues, yaml]
        rfl
    | valued noNull v json yaml plain =>
      cases hmore with
      | refused hasNull jsons yamls =>
        refine .refused (by simpa [noNull] using hasNull) ?_ ?_
        · rw [toValues, json, jsons]
          rfl
        · rw [toYamlItems, Yaml.toValues, yaml, yamls]
          rfl
      | valued noNulls vs jsons yamls plains =>
        refine .valued (by simpa [noNull] using noNulls) (v :: vs) ?_ ?_ ?_
        · rw [toValues, json, jsons]
          rfl
        · rw [toYamlItems, Yaml.toValues, yaml, yamls]
          rfl
        · obtain ⟨p, hp, rfl⟩ := plain
          obtain ⟨ps, hps, rfl⟩ := plains
          refine ⟨p :: ps, ?_, rfl⟩
          rw [Value.toPlainItems?, hp, hps]
          rfl

theorem convertsMembers (inner : ∀ m ∈ members, Converts m.2) : ConvertsMembers members := by
  induction members with
  | nil =>
    exact .valued (by simp) [] rfl (fun h _ => by rw [List.append_nil]; rfl) rfl ⟨[], rfl, rfl⟩
  | cons m ms ih =>
    obtain ⟨name, t⟩ := m
    have hmore := ih fun u hu => inner u (List.mem_cons_of_mem _ hu)
    cases inner (name, t) (by simp) with
    | refused hasNull json yaml =>
      refine .refused ⟨(name, t), by simp, hasNull⟩ ?_ fun h => ?_
      · rw [toEntries, json]
        rfl
      · rw [toYamlEntries, Yaml.toEntries, yaml]
        rfl
    | valued noNull v json yaml plain =>
      have hstep (h : Hash) : Yaml.toEntries h (toYamlEntries ((name, t) :: ms)) =
          Yaml.toEntries (Entries.insert h name v) (toYamlEntries ms) := by
        rw [toYamlEntries, Yaml.toEntries, yaml]
        rfl
      cases hmore with
      | refused hasNull jsons yamls =>
        refine .refused (by simpa [noNull] using hasNull) ?_ fun h => ?_
        · rw [toEntries, json, jsons]
          rfl
        · rw [hstep, yamls]
      | valued noNulls es jsons yamls keys plains =>
        refine .valued (by simpa [noNull] using noNulls) ((name, v) :: es) ?_ (fun h distinct => ?_)
          ?_ ?_
        · rw [toEntries, json, jsons]
          rfl
        · have hnew := Entries.insert_eq_append (Entries.notMem_keys distinct) v
          have hrest := yamls (h ++ [(name, v)]) (Entries.hasDistinctKeys_append_cons.1 distinct)
          rw [hstep, hnew, hrest, List.append_assoc, List.singleton_append]
        · simpa [Entries.keys] using keys
        · obtain ⟨p, hp, rfl⟩ := plain
          obtain ⟨ps, hps, rfl⟩ := plains
          refine ⟨(name, p) :: ps, ?_, rfl⟩
          rw [Value.toPlainEntries?, hp, hps]
          rfl

theorem IsExact.converts (exact : t.IsExact) : t.Converts := by
  induction exact with
  | null => exact .refused .null rfl rfl
  | boolean b => exact .valued nofun (.boolean b) rfl rfl ⟨_, rfl, rfl⟩
  | integer n =>
    have hvalue : (DocumentNumber.whole n.toInt).toValue = .ok (.integer n) := by
      rw [DocumentNumber.toValue, Numeral.fit64?_toInt]
    exact .valued nofun (.integer n) hvalue hvalue ⟨_, rfl, rfl⟩
  | string s => exact .valued nofun (.string s) rfl rfl ⟨_, rfl, rfl⟩
  | array _ ih =>
    cases convertsItems ih with
    | refused hasNull json yaml =>
      refine .refused (hasNull_array.2 hasNull) ?_ ?_
      · rw [toValue, json]
        rfl
      · rw [toYaml, Yaml.toValue, yaml]
        rfl
    | valued noNull vs json yaml plain =>
      refine .valued (mt hasNull_array.1 noNull) (.sequence vs) ?_ ?_ ?_
      · rw [toValue, json]
        rfl
      · rw [toYaml, Yaml.toValue, yaml]
        rfl
      · obtain ⟨ps, hps, rfl⟩ := plain
        refine ⟨.list ps, ?_, rfl⟩
        rw [Value.toPlain?, hps]
        rfl
  | object distinct _ ih =>
    cases convertsMembers ih with
    | refused hasNull json yaml =>
      refine .refused (hasNull_object.2 hasNull) ?_ ?_
      · rw [toValue, json]
        rfl
      · rw [toYaml, Yaml.toValue, yaml]
        rfl
    | valued noNull es json yaml keys plain =>
      have hdistinct : Entries.HasDistinctKeys ([] ++ es) := by
        rw [List.nil_append, Entries.HasDistinctKeys, keys]
        exact distinct
      refine .valued (mt hasNull_object.1 noNull) (.hash es) ?_ ?_ ?_
      · rw [toValue, json]
        rfl
      · rw [toYaml, Yaml.toValue, yaml [] hdistinct]
        rfl
      · obtain ⟨ps, hps, rfl⟩ := plain
        refine ⟨.record ps, ?_, rfl⟩
        rw [Value.toPlain?, hps]
        rfl

/-- A null anywhere in a tree is refused in a JSON document, and in each YAML document that is the
tree with tags. Without a null, the documents have one value, and the JSON document that is written
for this value is the tree. -/
theorem toValue_alike (exact : t.IsExact) {y : Yaml} (same : y.withoutTags = t.toYaml) :
    (t.toValue = .error .jsonNull ↔ t.HasNull) ∧ (y.toValue = .error .yamlNull ↔ t.HasNull) ∧
      (¬t.HasNull → ∃ v p, t.toValue = .ok v ∧ y.toValue = .ok v ∧ v.toPlain? = some p ∧
        p.toJson = t) := by
  have hyaml : y.toValue = t.toYaml.toValue := by
    rw [← same, Yaml.toValue_withoutTags]
  rw [hyaml]
  cases exact.converts with
  | refused hasNull json yaml =>
    exact ⟨iff_of_true json hasNull, iff_of_true yaml hasNull, fun h => absurd hasNull h⟩
  | valued noNull v json yaml plain =>
    obtain ⟨p, hp, hjson⟩ := plain
    refine ⟨iff_of_false ?_ noNull, iff_of_false ?_ noNull, fun _ => ⟨v, p, json, yaml, hp, hjson⟩⟩
    · rw [json]
      nofun
    · rw [yaml]
      nofun

/-- Names out of alphabetical order, with tags outside and inside. -/
theorem toValue_alike_tagged :
    IsExact (.object [("b", .array [.number (.whole (-7))]), ("a", .boolean true)]) ∧
      Yaml.withoutTags (.tagged "t" (.mapping [
        (.string "b", .sequence [.tagged "u" (.tagged "v" (.number (.whole (-7))))]),
        (.string "a", .tagged "w" (.boolean true))])) =
          toYaml (.object [("b", .array [.number (.whole (-7))]), ("a", .boolean true)]) ∧
      ∃ v p,
        toValue (.object [("b", .array [.number (.whole (-7))]), ("a", .boolean true)]) = .ok v ∧
        Yaml.toValue (.tagged "t" (.mapping [
          (.string "b", .sequence [.tagged "u" (.tagged "v" (.number (.whole (-7))))]),
          (.string "a", .tagged "w" (.boolean true))])) = .ok v ∧
        v.toPlain? = some p ∧
        p.toJson = .object [("b", .array [.number (.whole (-7))]), ("a", .boolean true)] := by
  have hexact :
      IsExact (.object [("b", .array [.number (.whole (-7))]), ("a", .boolean true)]) := by
    refine .object (by simp [Entries.HasDistinctKeys, Entries.keys]) fun m hm => ?_
    simp only [List.mem_cons, List.not_mem_nil, or_false] at hm
    rcases hm with rfl | rfl
    · exact .array fun t ht => List.mem_singleton.1 ht ▸ .integer (-7)
    · exact .boolean true
  have hnoNull :
      ¬HasNull (.object [("b", .array [.number (.whole (-7))]), ("a", .boolean true)]) := by
    simp only [hasNull_object, hasNull_array, List.mem_cons, List.not_mem_nil, or_false,
      exists_eq_or_imp, exists_eq_left, not_or]
    exact ⟨nofun, nofun⟩
  exact ⟨hexact, rfl, (toValue_alike hexact rfl).2.2 hnoNull⟩

end Json

end TextualData
