import UniqueJobs.Job.Key
import UniqueJobs.Proofs.Json.Same
import UniqueJobs.Proofs.Json.Scan

/-!
What the digest of a logical job covers tells the job: worker and arguments can be read off it, though
nothing but a colon stands between them and the worker may hold any characters. Main statement:
`identity_eq_iff`.
-/

namespace UniqueJobs

namespace Digest

theorem toList_loop (bytes : ByteArray) (i : Nat) (read : List UInt8) :
    ByteArray.toList.loop bytes i read = read.reverse ++ bytes.data.toList.drop i := by
  rw [ByteArray.toList.loop]
  split
  · rename_i hi
    have hsize : i < bytes.data.toList.length := hi
    have hget : bytes.get! i = bytes.data.toList[i] := getElem!_pos bytes.data i hi
    rw [toList_loop bytes (i + 1), List.reverse_cons, List.append_assoc, hget,
      List.singleton_append, List.getElem_cons_drop]
  · rename_i hi
    rw [List.drop_eq_nil_of_le (Nat.le_of_not_lt hi), List.append_nil]
termination_by bytes.size - i

theorem utf8_injective {s t : String} (h : utf8 s = utf8 t) : s = t := by
  rw [utf8, utf8, ByteArray.toList, ByteArray.toList, toList_loop, toList_loop] at h
  exact String.toByteArray_inj.mp (ByteArray.ext (Array.toList_inj.mp h))

end Digest

namespace Value

theorem ext_json {v v' : Value} (h : v.json = v'.json) : v = v' := by
  cases v
  cases v'
  simpa using h

theorem settle_of_ofJson? {j : Json} {v : Value} (h : ofJson? j = some v) :
    j.settle = some v.json := by
  unfold ofJson? at h
  split at h
  · rename_i j' hj
    rw [hj, ← Option.some.inj h]
  · cases h

theorem settleItems_of_mapM {docs : List Json} {vs : List Value}
    (h : docs.mapM ofJson? = some vs) : Json.settleItems docs = some (vs.map (·.json)) := by
  induction docs generalizing vs with
  | nil =>
    obtain rfl : [] = vs := Option.some.inj h
    rfl
  | cons j rest ih =>
    rw [List.mapM_cons] at h
    obtain ⟨v, hv, h⟩ := Option.bind_eq_some_iff.mp h
    obtain ⟨rest', hrest, h⟩ := Option.bind_eq_some_iff.mp h
    obtain rfl : v :: rest' = vs := Option.some.inj h
    rw [Json.settleItems, settle_of_ofJson? hv, ih hrest]
    rfl

end Value

namespace Job

theorem toList_identity (worker : String) (args : List Value) :
    (identity worker args).toList =
      worker.toList ++ ':' :: Json.chars (.array (args.map (·.json))) := by
  simp [identity, Json.compact]

theorem denotes_args (args : List Value) : (Json.array (args.map (·.json))).Denotes := by
  refine Json.denoteItems_iff.mpr fun j hj ↦ ?_
  obtain ⟨v, -, rfl⟩ := List.mem_map.mp hj
  exact Json.denotes_of_settled v.settled

/-- Worker and arguments can be read off what the digest covers. -/
theorem eq_of_identity_eq {worker worker' : String} {args args' : List Value}
    (h : identity worker args = identity worker' args') : worker = worker' ∧ args = args' := by
  have hlist := congrArg String.toList h
  rw [toList_identity, toList_identity] at hlist
  obtain ⟨hworker, hargs⟩ := Json.cut_unique hlist
  have hitems := Json.array.inj (Json.chars_injective (denotes_args args) (denotes_args args') hargs)
  exact ⟨String.toList_inj.mp hworker, (List.map_inj_right fun _ _ ↦ Value.ext_json).mp hitems⟩

/-- The bytes that the digest of a logical job covers tell the worker and the values of the
arguments: their order and number, the kinds of numbers, and objects as maps from names to values,
whatever order their members were written in. -/
theorem identity_eq_iff {docs docs' : List Json} {args args' : List Value} (worker worker' : String)
    (h : docs.mapM Value.ofJson? = some args) (h' : docs'.mapM Value.ofJson? = some args') :
    Digest.utf8 (identity worker args) = Digest.utf8 (identity worker' args') ↔
      worker = worker' ∧ Json.Same (.array docs) (.array docs') := by
  have hdocs : Json.settle (.array docs) = some (.array (args.map (·.json))) := by
    rw [Json.settle, Value.settleItems_of_mapM h, Option.map_some]
  have hdocs' : Json.settle (.array docs') = some (.array (args'.map (·.json))) := by
    rw [Json.settle, Value.settleItems_of_mapM h', Option.map_some]
  rw [← Json.settle_eq_iff hdocs hdocs']
  constructor
  · intro heq
    obtain ⟨hworker, hargs⟩ := eq_of_identity_eq (Digest.utf8_injective heq)
    exact ⟨hworker, by rw [hargs]⟩
  · intro ⟨hworker, hargs⟩
    rw [identity, identity, hworker, hargs]

def receipt : Value :=
  ⟨.object [("again", .bool true), ("to", .string "[:")],
    List.pairwise_pair.mpr (by decide), trivial, trivial, trivial⟩

/-- One name is written twice, in two places. -/
def receiptAsWritten : Json :=
  .object [("to", .string "[:"), ("again", .null), ("again", .bool true)]

theorem identity_eq_iff_receipt :
    [receiptAsWritten].mapM Value.ofJson? = some [receipt] ∧
      [receipt.json].mapM Value.ofJson? = some [receipt] ∧
      Json.Same (.array [receiptAsWritten]) (.array [receipt.json]) := by
  have hwritten : [receiptAsWritten].mapM Value.ofJson? = some [receipt] := rfl
  have hsettled : [receipt.json].mapM Value.ofJson? = some [receipt] := rfl
  exact ⟨hwritten, hsettled, ((identity_eq_iff "mail:[" "mail:[" hwritten hsettled).mp rfl).2⟩

end Job

end UniqueJobs
