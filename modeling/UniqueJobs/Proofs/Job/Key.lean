import UniqueJobs.Job.Key
import UniqueJobs.Proofs.Site.Confined

/-!
Keys of logical jobs in one keyspace, and the names of the records under them. What follows the last
colon of a key is a digest, which no other part of a name is as long as; so queue and digest can be
read off a key (`JobKey.ofDigest_inj`), and two keys own no name in common whose config has no colon
(`JobKey.not_owns_of_ne`).
-/

namespace UniqueJobs

def ColonFree (s : String) : Prop := ':' ∉ s.toList

instance (s : String) : Decidable (ColonFree s) := inferInstanceAs (Decidable (¬ _))

/-- Is a text made of 64 lower-case hexadecimal digits? -/
def IsDigest (s : String) : Prop := s.length = 64 ∧ ∀ c ∈ s.toList, c ∈ "0123456789abcdef".toList

theorem IsDigest.colonFree {s : String} (h : IsDigest s) : ColonFree s := by
  intro hcolon
  have hdigit := h.2 _ hcolon
  simp at hdigit

theorem isDigest_sha256 (message : List UInt8) : IsDigest (Digest.sha256 message) := by
  refine ⟨Digest.length_sha256 message, ?_⟩
  have hdigit : ∀ n < 16, Text.hexDigit n ∈ "0123456789abcdef".toList := by decide
  intro c hc
  rw [Digest.sha256, String.toList_ofList, Digest.hex, List.mem_flatMap] at hc
  obtain ⟨w, -, hc⟩ := hc
  rw [Digest.hexWord, List.mem_map] at hc
  obtain ⟨s, -, rfl⟩ := hc
  exact hdigit _ (Nat.mod_lt _ (by decide))

theorem eq_of_append_cons {α : Type} {a : α} {s t l l' : List α} (hs : a ∉ s) (ht : a ∉ t)
    (h : s ++ a :: l = t ++ a :: l') : s = t ∧ l = l' := by
  induction s generalizing t with
  | nil =>
    cases t with
    | nil => exact ⟨rfl, (List.cons.inj h).2⟩
    | cons b t =>
      obtain rfl := (List.cons.inj h).1
      exact absurd List.mem_cons_self ht
  | cons b s ih =>
    cases t with
    | nil =>
      obtain rfl := (List.cons.inj h).1
      exact absurd List.mem_cons_self hs
    | cons d t =>
      obtain ⟨rfl, hrest⟩ := List.cons.inj h
      rw [List.mem_cons, not_or] at hs ht
      obtain ⟨rfl, rfl⟩ := ih hs.2 ht.2 hrest
      exact ⟨rfl, rfl⟩

/-- The last colon of a text is found if what follows it has none. -/
theorem append_colon_inj {a b s t : String} (hs : ColonFree s) (ht : ColonFree t)
    (h : a ++ ":" ++ s = b ++ ":" ++ t) : a = b ∧ s = t := by
  have hcolon : ":".toList = [':'] := by decide
  have hlist := congrArg (fun x : String ↦ x.toList.reverse) h
  simp only [String.toList_append, hcolon, List.append_assoc, List.singleton_append,
    List.reverse_append, List.reverse_cons] at hlist
  obtain ⟨htail, hstem⟩ := eq_of_append_cons (by rwa [List.mem_reverse])
    (by rwa [List.mem_reverse]) hlist
  exact ⟨String.ext (List.reverse_inj.mp hstem), String.ext (List.reverse_inj.mp htail)⟩

namespace Record

/-- What stands before the last colon of a name. -/
def stem (keyspace queue digest : String) : Record → String
  | holder => keyspace ++ ":duplicate:" ++ queue
  | flag | configs => (JobKey.ofDigest keyspace queue digest).text
  | baseline config | latest config => (JobKey.ofDigest keyspace queue digest).text ++ ":" ++ config

/-- What stands after it. -/
def tail (digest : String) : Record → String
  | holder => digest
  | flag => "deduplicate_flag"
  | configs => "wal_configs"
  | baseline _ => "existing_wal_location"
  | latest _ => "wal_location"

def tailLength : Record → Nat
  | holder => 64
  | flag => 16
  | configs => 11
  | baseline _ => 21
  | latest _ => 12

variable {keyspace queue digest : String}

theorem name_ofDigest (r : Record) :
    r.name (.ofDigest keyspace queue digest) =
      r.stem keyspace queue digest ++ ":" ++ r.tail digest := by
  cases r with
  | holder => rfl
  | flag | configs =>
    simp only [name, JobKey.flag, JobKey.configs, stem, tail, String.append_assoc]
    rfl
  | baseline config | latest config =>
    simp only [name, JobKey.baseline, JobKey.latest, stem, tail, String.append_assoc]
    rfl

theorem colonFree_tail (h : IsDigest digest) (r : Record) : ColonFree (r.tail digest) := by
  cases r with
  | holder => exact h.colonFree
  | flag | configs | baseline | latest => simp [ColonFree, tail]

theorem length_tail (h : IsDigest digest) (r : Record) : (r.tail digest).length = r.tailLength := by
  cases r with
  | holder => exact h.1
  | flag | configs | baseline | latest => simp [tail, tailLength, ← String.length_toList]

end Record

namespace JobKey

variable {keyspace queue queue' digest digest' : String}

theorem ofDigest_inj (hd : IsDigest digest) (hd' : IsDigest digest') :
    ofDigest keyspace queue digest = ofDigest keyspace queue' digest' ↔
      queue = queue' ∧ digest = digest' := by
  constructor
  · intro h
    obtain ⟨hstem, htail⟩ := append_colon_inj hd.colonFree hd'.colonFree (congrArg text h)
    exact ⟨String.append_right_inj _ |>.mp hstem, htail⟩
  · intro h
    rw [h.1, h.2]

/-- Is it a key that a job of the keyspace gets which carries none? -/
def DerivedIn (keyspace : String) (k : JobKey) : Prop :=
  ∃ queue digest, IsDigest digest ∧ k = ofDigest keyspace queue digest

theorem derivedIn_derive (keyspace queue worker : String) (args : List Value) :
    (derive keyspace queue worker args).DerivedIn keyspace :=
  ⟨queue, _, isDigest_sha256 _, rfl⟩

theorem eq_of_name_eq {k k' : JobKey} (hk : k.DerivedIn keyspace) (hk' : k'.DerivedIn keyspace)
    {r r' : Record} (hr : r.Within ColonFree) (hr' : r'.Within ColonFree)
    (h : r.name k = r'.name k') : k = k' := by
  obtain ⟨queue, digest, hd, rfl⟩ := hk
  obtain ⟨queue', digest', hd', rfl⟩ := hk'
  have hparts := h
  rw [Record.name_ofDigest, Record.name_ofDigest] at hparts
  obtain ⟨hstem, htail⟩ := append_colon_inj (Record.colonFree_tail hd r)
    (Record.colonFree_tail hd' r') hparts
  have hlen := congrArg String.length htail
  rw [Record.length_tail hd, Record.length_tail hd'] at hlen
  cases r with
  | holder => cases r' with
    | holder => exact congrArg JobKey.mk h
    | flag | configs | baseline | latest => cases hlen
  | flag => cases r' with
    | flag => exact congrArg JobKey.mk hstem
    | holder | configs | baseline | latest => cases hlen
  | configs => cases r' with
    | configs => exact congrArg JobKey.mk hstem
    | holder | flag | baseline | latest => cases hlen
  | baseline config => cases r' with
    | baseline config' => exact congrArg JobKey.mk (append_colon_inj hr hr' hstem).1
    | holder | flag | configs | latest => cases hlen
  | latest config => cases r' with
    | latest config' => exact congrArg JobKey.mk (append_colon_inj hr hr' hstem).1
    | holder | flag | configs | baseline => cases hlen

/-- Two jobs have no record in common. -/
theorem not_owns_of_ne {k k' : JobKey} (hk : k.DerivedIn keyspace) (hk' : k'.DerivedIn keyspace)
    (hne : k ≠ k') {name : String} (h : k.Owns ColonFree name) : ¬ k'.Owns ColonFree name := by
  obtain ⟨r, hr, rfl⟩ := h
  intro ⟨r', hr', hname⟩
  exact hne (eq_of_name_eq hk hk' hr hr' hname.symm)

end JobKey

theorem Job.identify_eq_iff (keyspace : String) {j j' : Job} (hj : j.key = none)
    (hj' : j'.key = none) :
    (j.identify keyspace).1 = (j'.identify keyspace).1 ↔
      j.queue = j'.queue ∧ Job.digest j.worker j.args = Job.digest j'.worker j'.args := by
  simp only [identify, hj, hj']
  exact JobKey.ofDigest_inj (isDigest_sha256 _) (isDigest_sha256 _)

end UniqueJobs
