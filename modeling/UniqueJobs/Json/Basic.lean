import UniqueJobs.Dictionary
import UniqueJobs.Decimal.Double

/-!
JSON documents. `Json` is what a text says, members in the order written; `Json.Settled` singles out
the documents that are data: the members of every object in ascending order of name, each once, and
every part denoting a value. `Value` packs a settled document, `Value.ofJson?` settles one.
-/

namespace UniqueJobs

/-- The whole numbers of 64 bits, signed or not. -/
def IsWord (n : Int) : Prop := -0x8000_0000_0000_0000 ≤ n ∧ n < UInt64.size

instance (n : Int) : Decidable (IsWord n) := inferInstanceAs (Decidable (_ ∧ _))

/-- A number keeps its kind: whole numbers are apart from doubles. -/
inductive Number
  | whole (value : Int) (fits : IsWord value)
  | double (d : Double)
  deriving DecidableEq

inductive Json
  | null
  | bool (b : Bool)
  | number (n : Number)
  | string (s : String)
  | array (items : List Json)
  | object (members : List (String × Json))
  /-- A part that is well formed and denotes nothing: a number beyond the doubles, a text with half
  a surrogate pair, or more nesting than the reader allows. -/
  | unreadable

namespace Json

instance : Inhabited Json := ⟨null⟩

def int (n : Int) : Json :=
  if h : IsWord n then number (.whole n h) else unreadable

mutual

/-- Every part denotes a value, and members stand in ascending order of name, each once. -/
def Settled : Json → Prop
  | .array items => SettledItems items
  | .object members => members.Pairwise (fun a b ↦ a.1 < b.1) ∧ SettledMembers members
  | .unreadable => False
  | _ => True

def SettledItems : List Json → Prop
  | [] => True
  | j :: rest => Settled j ∧ SettledItems rest

def SettledMembers : List (String × Json) → Prop
  | [] => True
  | (_, j) :: rest => Settled j ∧ SettledMembers rest

end

mutual

/-- Put members in order, of one name the last, and refuse what denotes nothing. -/
def settle : Json → Option Json
  | .array items => (settleItems items).map .array
  | .object members => (settleMembers members).map fun ms ↦ .object (Dictionary.ofList ms).entries
  | .unreadable => none
  | .null => some .null
  | .bool b => some (.bool b)
  | .number n => some (.number n)
  | .string s => some (.string s)

def settleItems : List Json → Option (List Json)
  | [] => some []
  | j :: rest =>
    match settle j, settleItems rest with
    | some j, some rest => some (j :: rest)
    | _, _ => none

def settleMembers : List (String × Json) → Option (List (String × Json))
  | [] => some []
  | (name, j) :: rest =>
    match settle j, settleMembers rest with
    | some j, some rest => some ((name, j) :: rest)
    | _, _ => none

end

theorem settledItems_iff {l : List Json} : SettledItems l ↔ ∀ j ∈ l, Settled j := by
  induction l with
  | nil => simp [SettledItems]
  | cons j rest ih => simp [SettledItems, ih]

theorem settledMembers_iff {l : List (String × Json)} :
    SettledMembers l ↔ ∀ e ∈ l, Settled e.2 := by
  induction l with
  | nil => simp [SettledMembers]
  | cons e rest ih =>
    obtain ⟨name, j⟩ := e
    simp [SettledMembers, ih]

theorem settledMembers_ofList {l : List (String × Json)} (h : SettledMembers l) :
    SettledMembers (Dictionary.ofList l).entries := by
  rw [settledMembers_iff] at h ⊢
  suffices ∀ d : Dictionary Json, (∀ e ∈ d.entries, Settled e.2) →
      ∀ e ∈ (l.foldl (fun d e ↦ d.insert e.1 e.2) d).entries, Settled e.2 from
    this _ (by simp [Dictionary.empty])
  induction l with
  | nil => exact fun _ hd ↦ hd
  | cons e rest ih =>
    intro d hd
    refine ih (fun x hx ↦ h x (List.mem_cons_of_mem _ hx)) _ fun x hx ↦ ?_
    rcases Dictionary.mem_place hx with rfl | hx
    · exact h e List.mem_cons_self
    · exact hd x hx

mutual

theorem settled_of_settle {j j' : Json} (h : settle j = some j') : Settled j' := by
  match j with
  | .array items =>
    obtain ⟨items', hi, rfl⟩ := Option.map_eq_some_iff.mp h
    exact settledItems_of_settle hi
  | .object members =>
    obtain ⟨members', hm, rfl⟩ := Option.map_eq_some_iff.mp h
    exact ⟨Dictionary.ascending _, settledMembers_ofList (settledMembers_of_settle hm)⟩
  | .unreadable => simp [settle] at h
  | .null | .bool _ | .number _ | .string _ =>
    simp only [settle, Option.some.injEq] at h
    subst h
    simp [Settled]

theorem settledItems_of_settle {l l' : List Json} (h : settleItems l = some l') :
    SettledItems l' := by
  match l with
  | [] =>
    simp only [settleItems, Option.some.injEq] at h
    subst h
    simp [SettledItems]
  | j :: rest =>
    simp only [settleItems] at h
    split at h
    · rename_i j' rest' hj hr
      simp only [Option.some.injEq] at h
      subst h
      exact ⟨settled_of_settle hj, settledItems_of_settle hr⟩
    · simp at h

theorem settledMembers_of_settle {l l' : List (String × Json)} (h : settleMembers l = some l') :
    SettledMembers l' := by
  match l with
  | [] =>
    simp only [settleMembers, Option.some.injEq] at h
    subst h
    simp [SettledMembers]
  | (name, j) :: rest =>
    simp only [settleMembers] at h
    split at h
    · rename_i j' rest' hj hr
      simp only [Option.some.injEq] at h
      subst h
      exact ⟨settled_of_settle hj, settledMembers_of_settle hr⟩
    · simp at h

end

mutual

theorem settle_of_settled {j : Json} (h : j.Settled) : settle j = some j := by
  match j with
  | .array items => simp [settle, settleItems_of_settled h]
  | .object members =>
    simp [settle, settleMembers_of_settled h.2, Dictionary.entries_ofList h.1]
  | .unreadable => exact h.elim
  | .null | .bool _ | .number _ | .string _ => rfl

theorem settleItems_of_settled {l : List Json} (h : SettledItems l) : settleItems l = some l := by
  match l with
  | [] => rfl
  | j :: rest => simp [settleItems, settle_of_settled h.1, settleItems_of_settled h.2]

theorem settleMembers_of_settled {l : List (String × Json)} (h : SettledMembers l) :
    settleMembers l = some l := by
  match l with
  | [] => rfl
  | (name, j) :: rest =>
    simp [settleMembers, settle_of_settled h.1, settleMembers_of_settled h.2]

end

end Json

structure Value where
  json : Json
  settled : json.Settled

namespace Value

instance : Inhabited Value := ⟨⟨.null, by simp [Json.Settled]⟩⟩

def ofJson? (j : Json) : Option Value :=
  match h : j.settle with
  | some j => some ⟨j, Json.settled_of_settle h⟩
  | none => none

@[simp] theorem ofJson?_json (v : Value) : ofJson? v.json = some v := by
  unfold ofJson?
  split
  · rename_i j h
    rw [Json.settle_of_settled v.settled] at h
    cases v
    simp_all
  · rename_i h
    rw [Json.settle_of_settled v.settled] at h
    simp at h

end Value

end UniqueJobs
