import DeclBundle.Decode.Record
import DeclBundle.Tree.Encode

/-!
# Reading what was written

A record that was written as an object gives its reader every field that stands in it once
(`FieldReader.Finds`). What stands under a key is `under`, which is computed for every way to write
a field.
-/

namespace DeclBundle

namespace Json

theorem itemsDepth_le {n : Nat} : ∀ {vs : List Json}, itemsDepth vs ≤ n ↔ ∀ v ∈ vs, v.depth ≤ n
  | [] => by simp [itemsDepth]
  | v :: vs => by
    rw [itemsDepth, Nat.max_le, itemsDepth_le, List.forall_mem_cons]

theorem fieldsDepth_le {n : Nat} : ∀ {fields : List (String × Json)},
    fieldsDepth fields ≤ n ↔ ∀ field ∈ fields, field.2.depth ≤ n
  | [] => by simp [fieldsDepth]
  | (k, v) :: fields => by
    rw [fieldsDepth, Nat.max_le, fieldsDepth_le, List.forall_mem_cons]

theorem depth_of_arr {n : Nat} {vs : List Json} (h : (Json.arr vs).depth ≤ n) :
    ∀ v ∈ vs, v.depth ≤ n := by
  rw [depth] at h
  exact itemsDepth_le.1 (Nat.le_of_succ_le h)

end Json

namespace Decode

/-- The values under a key, in order. -/
def under (key : String) (fields : List (String × Json)) : List Json :=
  (fields.filter (·.1 == key)).map Prod.snd

section
variable (key k : String)

@[simp] theorem under_nil : under key [] = [] := rfl

@[simp] theorem under_cons (v : Json) (fields : List (String × Json)) :
    under key ((k, v) :: fields) = if k = key then v :: under key fields else under key fields := by
  by_cases h : k = key <;> simp [under, h]

@[simp] theorem under_append (xs ys : List (String × Json)) :
    under key (xs ++ ys) = under key xs ++ under key ys := by
  simp [under]

@[simp] theorem under_optional (g : α → Json) (o : Option α) :
    under key (Encode.optional k g o) = if k = key then o.toList.map g else [] := by
  cases o with
  | none => simp [Encode.optional]
  | some a => simp [Encode.optional]

@[simp] theorem under_nonempty (items : List Json) :
    under key (Encode.nonempty k items)
      = if k = key ∧ items ≠ [] then [.arr items] else [] := by
  cases items with
  | nil => simp [Encode.nonempty]
  | cons v vs => simp [Encode.nonempty]

end

namespace FieldReader

/-- The reader finds a value in an object with these fields. -/
def Finds (r : FieldReader α) (fields : List (String × Json)) (a : α) : Prop :=
  r.read ⟨fields, false⟩ = .ok a

variable {fields : List (String × Json)} {key : String} {f : Json → Decoded α} {n : Nat}

theorem Finds.map {r : FieldReader α} {a : α} (h : r.Finds fields a) {g : α → β} :
    (g <$> r).Finds fields (g a) := read_map_of_ok h

theorem Finds.seq {r : FieldReader (α → β)} {s : FieldReader α} {g : α → β} {a : α}
    (hr : r.Finds fields g) (hs : s.Finds fields a) : (r <*> s).Finds fields (g a) :=
  read_seq_of_ok hr hs

theorem given?_none (h : under key fields = []) : (given? key f).Finds fields none := by
  have hf : fields.filter (·.1 == key) = [] := List.map_eq_nil_iff.1 h
  simp only [Finds, given?, hf]

theorem given?_some {v : Json} {a : α} (h : under key fields = [v]) (hv : f v = .ok a) :
    (given? key f).Finds fields (some a) := by
  obtain ⟨⟨k, w⟩, hf, rfl⟩ := List.map_eq_singleton_iff.1 h
  simp only [Finds, given?, hf, hv]

theorem required_of_under {v : Json} {a : α} (h : under key fields = [v]) (hv : f v = .ok a) :
    (required key f).Finds fields a := by
  have hg : (given? key f).read ⟨fields, false⟩ = .ok (some a) := given?_some h hv
  simp only [Finds, required, hg]

theorem defaulted_of_under {v : Json} {a fallback : α} (h : under key fields = [v])
    (hv : f v = .ok a) : (defaulted key fallback f).Finds fields a :=
  (given?_some h hv).map

/-! What is read with a bound for its depth is not deeper than the record. -/

theorem depth_of_under {v : Json} (hd : Json.fieldsDepth fields ≤ n)
    (h : under key fields = [v]) : v.depth ≤ n := by
  obtain ⟨⟨k, w⟩, hf, rfl⟩ := List.map_eq_singleton_iff.1 h
  have hw : (k, w) ∈ fields.filter (·.1 == key) := by
    rw [hf]
    exact List.mem_cons_self
  exact Json.fieldsDepth_le.1 hd _ (List.mem_filter.1 hw).1

theorem required_within {v : Json} {a : α} (hd : Json.fieldsDepth fields ≤ n)
    (h : under key fields = [v]) (hv : v.depth ≤ n → f v = .ok a) :
    (required key f).Finds fields a :=
  required_of_under h (hv (depth_of_under hd h))

theorem defaulted_within {v : Json} {a fallback : α} (hd : Json.fieldsDepth fields ≤ n)
    (h : under key fields = [v]) (hv : v.depth ≤ n → f v = .ok a) :
    (defaulted key fallback f).Finds fields a :=
  defaulted_of_under h (hv (depth_of_under hd h))

theorem optional_within {g : α → Json} {o : Option α} (hd : Json.fieldsDepth fields ≤ n)
    (h : under key fields = o.toList.map g) (hnull : ∀ a, g a ≠ .null)
    (hv : ∀ a ∈ o, (g a).depth ≤ n → f (g a) = .ok a) : (optional key f).Finds fields o := by
  cases o with
  | none => exact (given?_none h).map
  | some a =>
    have horNull : orNull f (g a) = .ok (some a) := by
      unfold orNull
      split
      · rename_i he
        exact absurd he (hnull a)
      · rw [hv a rfl (depth_of_under hd h)]
        rfl
    exact (given?_some h horNull).map

theorem optional_of_under {g : α → Json} {o : Option α} (h : under key fields = o.toList.map g)
    (hnull : ∀ a, g a ≠ .null) (hv : ∀ a ∈ o, f (g a) = .ok a) :
    (optional key f).Finds fields o :=
  optional_within (Nat.le_refl _) h hnull fun a ha _ => hv a ha

end FieldReader

theorem each_map {f : Json → Decoded α} {g : α → Json} : ∀ {as : List α},
    (∀ a ∈ as, f (g a) = .ok a) → each f (as.map g) = .ok as
  | [], _ => rfl
  | a :: as, h => by
    rw [List.map_cons, each, h a List.mem_cons_self,
      each_map fun b hb => h b (List.mem_cons_of_mem _ hb)]
    rfl

theorem list_each {f : Json → Decoded α} {g : α → Json} {as : List α}
    (h : ∀ a ∈ as, f (g a) = .ok a) : list f (.arr (as.map g)) = .ok as := each_map h

theorem list_within {f : Json → Decoded α} {g : α → Json} {as : List α} {n : Nat}
    (hv : ∀ a ∈ as, (g a).depth ≤ n → f (g a) = .ok a) (hd : (Json.arr (as.map g)).depth ≤ n) :
    list f (.arr (as.map g)) = .ok as :=
  each_map fun a ha => hv a ha (Json.depth_of_arr hd _ (List.mem_map_of_mem ha))

namespace FieldReader

variable {fields : List (String × Json)} {key : String} {f : Json → Decoded α} {n : Nat}

/-- A list that is left out when it is empty. -/
theorem nonempty_within {g : α → Json} {as : List α} (hd : Json.fieldsDepth fields ≤ n)
    (h : under key fields = if as ≠ [] then [.arr (as.map g)] else [])
    (hv : ∀ a ∈ as, (g a).depth ≤ n → f (g a) = .ok a) :
    (defaulted key [] (list f)).Finds fields as := by
  cases as with
  | nil => exact (given?_none h).map
  | cons a as => exact (given?_some h (list_within hv (depth_of_under hd h))).map

theorem nonempty_of_under {g : α → Json} {as : List α}
    (h : under key fields = if as ≠ [] then [.arr (as.map g)] else [])
    (hv : ∀ a ∈ as, f (g a) = .ok a) : (defaulted key [] (list f)).Finds fields as :=
  nonempty_within (Nat.le_refl _) h fun a ha _ => hv a ha

theorem Finds.decode {r : FieldReader α} {a : α} (h : r.Finds fields a) :
    r.decode ⟨fields, false⟩ = .ok a := by
  simp only [FieldReader.decode, show r.read ⟨fields, false⟩ = .ok a from h]
  rfl

end FieldReader

theorem record_obj {r : FieldReader α} {fields : List (String × Json)} {a : α}
    (h : r.Finds fields a) : record r (.obj fields) = .ok a := h.decode

/-- An object with its tag is a node of the shape of that tag. -/
theorem node_obj {nested : Bool} {key : String} (tag : String) {shapes : List (Shape α)}
    {s : Shape α} {fields : List (String × Json)} {a : α} (htag : under key fields = [.str tag])
    (hs : shapes.find? (·.tag == tag) = some s) (h : s.fields.Finds fields a) :
    node nested key shapes (.obj fields) = .ok a := by
  have hshape : shape nested shapes (.str tag) = .ok s := by simp only [shape, hs, present]
  show (required key (shape nested shapes)).decode ⟨fields, false⟩ >>= _ = _
  rw [(FieldReader.required_of_under htag hshape).decode]
  exact h.decode

theorem string_str (s : String) : string (.str s) = .ok s := rfl

theorem bool_bool (b : Bool) : bool (.bool b) = .ok b := rfl

theorem nat32_nat {n : Nat} (h : n < 4294967296) : nat32 (.nat n) = .ok n := by
  have hn : (0 : Int) ≤ n ∧ (n : Int) < 4294967296 := ⟨Int.natCast_nonneg n, by omega⟩
  simp only [nat32, Json.nat, if_pos hn, Int.toNat_natCast]

end Decode

end DeclBundle
