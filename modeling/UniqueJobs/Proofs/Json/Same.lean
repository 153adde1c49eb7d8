import UniqueJobs.Json.Basic
import UniqueJobs.Proofs.Dictionary

/-!
When two documents say the same value: numbers of one kind and size, arrays item by item, objects
name by name, whatever order the members were written in, the last of one name counting. That is what
settling decides. Main statement: `settle_eq_iff`.
-/

namespace UniqueJobs.Json

/-- The binding of a name that counts. -/
def last? (members : List (String × Json)) (name : String) : Option Json :=
  Dictionary.find name members.reverse

/-- Two documents say the same value. -/
inductive Same : Json → Json → Prop
  | null : Same .null .null
  | bool (b : Bool) : Same (.bool b) (.bool b)
  | number (n : Number) : Same (.number n) (.number n)
  | string (s : String) : Same (.string s) (.string s)
  | array {items items' : List Json} (length : items.length = items'.length)
    (each : ∀ i (h : i < items.length) (h' : i < items'.length), Same (items[i]) (items'[i])) :
    Same (.array items) (.array items')
  | object {members members' : List (String × Json)}
    (names : ∀ name, (last? members name).isSome = (last? members' name).isSome)
    (each : ∀ name j j', last? members name = some j → last? members' name = some j' → Same j j') :
    Same (.object members) (.object members')

/-! ### Settling, part by part -/

theorem last?_cons (name : String) (j : Json) (rest : List (String × Json)) (other : String) :
    last? ((name, j) :: rest) other =
      (last? rest other).or (if name = other then some j else none) := by
  rw [last?, List.reverse_cons, Dictionary.find_append]
  rfl

theorem mem_of_last? {members : List (String × Json)} {name : String} {j : Json}
    (h : last? members name = some j) : (name, j) ∈ members :=
  List.mem_reverse.mp (Dictionary.mem_of_find_eq_some h)

theorem sizeOf_lt_of_last? {members : List (String × Json)} {name : String} {j : Json}
    (h : last? members name = some j) : sizeOf j < sizeOf members := by
  have hmem := List.sizeOf_lt_of_mem (mem_of_last? h)
  rw [Prod.mk.sizeOf_spec] at hmem
  omega

theorem settleItems_cons {j : Json} {rest l : List Json} (h : settleItems (j :: rest) = some l) :
    ∃ v vs, settle j = some v ∧ settleItems rest = some vs ∧ l = v :: vs := by
  rw [settleItems] at h
  split at h
  · rename_i v vs hv hvs
    exact ⟨v, vs, hv, hvs, (Option.some.inj h).symm⟩
  · cases h

theorem settleMembers_cons {name : String} {j : Json} {rest l : List (String × Json)}
    (h : settleMembers ((name, j) :: rest) = some l) :
    ∃ v vs, settle j = some v ∧ settleMembers rest = some vs ∧ l = (name, v) :: vs := by
  rw [settleMembers] at h
  split at h
  · rename_i v vs hv hvs
    exact ⟨v, vs, hv, hvs, (Option.some.inj h).symm⟩
  · cases h

theorem length_settleItems {items l : List Json} (h : settleItems items = some l) :
    l.length = items.length := by
  induction items generalizing l with
  | nil =>
    rw [settleItems, Option.some.injEq] at h
    rw [← h]
  | cons j rest ih =>
    obtain ⟨v, vs, -, hvs, rfl⟩ := settleItems_cons h
    rw [List.length_cons, List.length_cons, ih hvs]

theorem settle_getElem {items l : List Json} (h : settleItems items = some l) (i : Nat)
    (hi : i < items.length) (hl : i < l.length) : settle (items[i]) = some (l[i]) := by
  induction items generalizing l i with
  | nil => exact absurd hi (Nat.not_lt_zero i)
  | cons j rest ih =>
    obtain ⟨v, vs, hv, hvs, rfl⟩ := settleItems_cons h
    cases i with
    | zero => exact hv
    | succ i => exact ih hvs i (Nat.lt_of_succ_lt_succ hi) (Nat.lt_of_succ_lt_succ hl)

/-- The binding that counts after settling is the settled one of those that counted before. -/
theorem last?_settleMembers {members l : List (String × Json)} (h : settleMembers members = some l)
    (name : String) : (last? members name).map settle = (last? l name).map some := by
  induction members generalizing l with
  | nil =>
    rw [settleMembers, Option.some.injEq] at h
    rw [← h]
    rfl
  | cons e rest ih =>
    obtain ⟨k, j⟩ := e
    obtain ⟨v, vs, hv, hvs, rfl⟩ := settleMembers_cons h
    rw [last?_cons, last?_cons, Option.map_or, Option.map_or, ih hvs]
    split
    · rw [Option.map_some, Option.map_some, hv]
    · rfl

theorem last?_of_settleMembers_none {members l : List (String × Json)} {name : String}
    (h : settleMembers members = some l) (hm : last? members name = none) : last? l name = none := by
  have hlast := last?_settleMembers h name
  rw [hm] at hlast
  exact Option.map_eq_none_iff.mp hlast.symm

theorem last?_of_settleMembers_some {members l : List (String × Json)} {name : String} {j : Json}
    (h : settleMembers members = some l) (hm : last? members name = some j) :
    ∃ v, last? l name = some v ∧ settle j = some v := by
  have hlast := last?_settleMembers h name
  rw [hm] at hlast
  obtain ⟨v, hv, heq⟩ := Option.map_eq_some_iff.mp hlast.symm
  exact ⟨v, hv, heq.symm⟩

theorem isSome_last?_settleMembers {members l : List (String × Json)}
    (h : settleMembers members = some l) (name : String) :
    (last? l name).isSome = (last? members name).isSome := by
  have hlast := congrArg Option.isSome (last?_settleMembers h name)
  simpa using hlast.symm

/-- Objects settle to one value if and only if they agree on every name. -/
theorem ofList_eq_iff {l l' : List (String × Json)} :
    Dictionary.ofList l = Dictionary.ofList l' ↔ ∀ name, last? l name = last? l' name := by
  constructor
  · intro h name
    rw [last?, last?, ← Dictionary.get?_ofList, ← Dictionary.get?_ofList, h]
  · intro h
    refine Dictionary.ext_get? fun name ↦ ?_
    rw [Dictionary.get?_ofList, Dictionary.get?_ofList]
    exact h name

/-! ### Sameness is what settling decides -/

theorem eq_of_same {j j' : Json} (h : Same j j') {v v' : Json} (hv : settle j = some v)
    (hv' : settle j' = some v') : v = v' := by
  induction h generalizing v v' with
  | null | bool b | number n | string s => exact Option.some.inj (hv.symm.trans hv')
  | array length each ih =>
    rw [settle, Option.map_eq_some_iff] at hv hv'
    obtain ⟨l, hl, rfl⟩ := hv
    obtain ⟨l', hl', rfl⟩ := hv'
    have hlen := length_settleItems hl
    have hlen' := length_settleItems hl'
    refine congrArg Json.array (List.ext_getElem (by omega) fun i hi hi' ↦ ?_)
    exact ih i (by omega) (by omega) (settle_getElem hl i (by omega) hi)
      (settle_getElem hl' i (by omega) hi')
  | @object members members' names each ih =>
    rw [settle, Option.map_eq_some_iff] at hv hv'
    obtain ⟨l, hl, rfl⟩ := hv
    obtain ⟨l', hl', rfl⟩ := hv'
    refine congrArg (fun d : Dictionary Json ↦ Json.object d.entries) (ofList_eq_iff.mpr ?_)
    intro name
    have hsame := names name
    cases hm : last? members name with
    | none =>
      rw [hm] at hsame
      have hm' : last? members' name = none := Option.not_isSome_iff_eq_none.mp (by simp [← hsame])
      rw [last?_of_settleMembers_none hl hm, last?_of_settleMembers_none hl' hm']
    | some j =>
      rw [hm] at hsame
      obtain ⟨j', hm'⟩ := Option.isSome_iff_exists.mp hsame.symm
      obtain ⟨v, hlast, hv⟩ := last?_of_settleMembers_some hl hm
      obtain ⟨v', hlast', hv'⟩ := last?_of_settleMembers_some hl' hm'
      rw [hlast, hlast', ih name j j' hm hm' hv hv']

theorem ctorIdx_settle {j v : Json} (h : settle j = some v) : v.ctorIdx = j.ctorIdx := by
  cases j with
  | array items | object members =>
    rw [settle, Option.map_eq_some_iff] at h
    obtain ⟨l, -, rfl⟩ := h
    rfl
  | unreadable => cases h
  | _ => rw [← Option.some.inj h]

theorem same_of_settle {j j' v : Json} (hv : settle j = some v) (hv' : settle j' = some v) :
    Same j j' := by
  have hkind : j'.ctorIdx = j.ctorIdx := (ctorIdx_settle hv').symm.trans (ctorIdx_settle hv)
  match j with
  | .null =>
    cases j' with
    | null => exact .null
    | _ => cases hkind
  | .bool b =>
    cases j' with
    | bool b' =>
      obtain rfl := Json.bool.inj (Option.some.inj (hv.trans hv'.symm))
      exact .bool b
    | _ => cases hkind
  | .number n =>
    cases j' with
    | number n' =>
      obtain rfl := Json.number.inj (Option.some.inj (hv.trans hv'.symm))
      exact .number n
    | _ => cases hkind
  | .string s =>
    cases j' with
    | string s' =>
      obtain rfl := Json.string.inj (Option.some.inj (hv.trans hv'.symm))
      exact .string s
    | _ => cases hkind
  | .array items =>
    cases j' with
    | array items' =>
      rw [settle, Option.map_eq_some_iff] at hv hv'
      obtain ⟨l, hl, rfl⟩ := hv
      obtain ⟨l', hl', heq⟩ := hv'
      obtain rfl := Json.array.inj heq
      have hlen := length_settleItems hl
      have hlen' := length_settleItems hl'
      refine .array (by omega) fun i hi hi' ↦ ?_
      have := List.sizeOf_lt_of_mem (List.getElem_mem hi)
      exact same_of_settle (settle_getElem hl i hi (by omega)) (settle_getElem hl' i hi' (by omega))
    | _ => cases hkind
  | .object members =>
    cases j' with
    | object members' =>
      rw [settle, Option.map_eq_some_iff] at hv hv'
      obtain ⟨l, hl, rfl⟩ := hv
      obtain ⟨l', hl', heq⟩ := hv'
      have hagree := ofList_eq_iff.mp (Dictionary.ext (Json.object.inj heq))
      refine .object (fun name ↦ ?_) fun name k k' hm hm' ↦ ?_
      · exact (isSome_last?_settleMembers hl name).symm.trans
          (hagree name ▸ isSome_last?_settleMembers hl' name)
      · obtain ⟨u, hlast, hu⟩ := last?_of_settleMembers_some hl hm
        obtain ⟨u', hlast', hu'⟩ := last?_of_settleMembers_some hl' hm'
        obtain rfl : u' = u := Option.some.inj (by rw [← hlast, ← hlast', hagree])
        have := sizeOf_lt_of_last? hm
        exact same_of_settle hu hu'
    | _ => cases hkind
  | .unreadable => cases hv
termination_by sizeOf j

/-- Documents settle to one value if and only if they say the same. -/
theorem settle_eq_iff {j j' v v' : Json} (hv : settle j = some v) (hv' : settle j' = some v') :
    v = v' ↔ Same j j' := by
  constructor
  · intro h
    exact same_of_settle hv (h ▸ hv')
  · intro h
    exact eq_of_same h hv hv'

end UniqueJobs.Json
