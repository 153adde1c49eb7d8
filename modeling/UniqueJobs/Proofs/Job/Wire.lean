import UniqueJobs.Job.Wire
import UniqueJobs.Proofs.Json.Record
import UniqueJobs.Settings
import UniqueJobs.Worker

/-!
Records that are written and read again. Whatever is left out of a record because there is nothing to
say is read as that, and the one thing that is lost is what a date has past its whole second. Main
statement: `records_read_back`.
-/

namespace UniqueJobs

namespace Timestamp

/-- The whole second at or before a date. -/
def wholeSecond (t : Timestamp) : Timestamp := ⟨t.secs, 0, t.inCalendar, .inl (by decide)⟩

theorem wholeSecond_of_subsec {t : Timestamp} (h : t.subsec = 0) : t.wholeSecond = t := by
  obtain ⟨secs, subsec, inCalendar, inSecond⟩ := t
  obtain rfl : subsec = 0 := h
  rfl

theorem isWord_secs (t : Timestamp) : IsWord t.secs := by
  have := t.inCalendar
  unfold InCalendar at this
  rw [IsWord, UInt64.size]
  omega

theorem timestamp?_int_secs (t : Timestamp) : Json.timestamp? (.int t.secs) = some t.wholeSecond := by
  rw [Json.timestamp?, Json.whole?_int t.isWord_secs, Option.bind_some, ofSecs?, ofParts?,
    dif_pos ⟨t.inCalendar, .inl (by decide)⟩, wholeSecond]

theorem int_secs_ne_null (t : Timestamp) : Json.int t.secs ≠ .null := by
  rw [Json.int, dif_pos t.isWord_secs]
  simp

end Timestamp

namespace Job

/-- The job with its date, if any, cut down to the whole second. -/
def inWholeSeconds (j : Job) : Job := { j with runAt := j.runAt.map Timestamp.wholeSecond }

theorem find_memberOf? {α : Type} (name other : String) (write : α → Json) (o : Option α) :
    Dictionary.find other (memberOf? name write o) = if name = other then o.map write else none := by
  cases o <;> simp [memberOf?, Dictionary.find]

theorem find_textsMember (name other : String) (d : Dictionary String) :
    Dictionary.find other (textsMember name d) =
      if name = other then (if d.isEmpty then none else some (Json.ofTexts d)) else none := by
  unfold textsMember
  split <;> simp [Dictionary.find]

theorem map_fst_memberOf? {α : Type} (name : String) (write : α → Json) (o : Option α) :
    ((memberOf? name write o).map (·.1)).Sublist [name] := by
  cases o <;> simp [memberOf?]

theorem map_fst_textsMember (name : String) (d : Dictionary String) :
    ((textsMember name d).map (·.1)).Sublist [name] := by
  unfold textsMember
  split <;> simp

/-- The members of the document of a job. -/
def members (j : Job) : List (String × Json) :=
  [("class", .string j.worker), ("args", .array (j.args.map (·.json))),
    ("jid", .string j.id.text), ("queue", .string j.queue)] ++
  memberOf? "at" (fun t : Timestamp ↦ .int t.secs) j.runAt ++
  textsMember "wal_locations" j.locations ++
  memberOf? "idempotency_key" .string j.key ++
  memberOf? "duplicate-of" (fun id : JobId ↦ .string id.text) j.duplicateOf ++
  textsMember "dedup_wal_locations" j.latest

theorem toJson_eq (j : Job) : j.toJson = .object j.members := rfl

theorem map_fst_members (j : Job) : (j.members.map (·.1)).Sublist fieldNames := by
  simp only [members, List.map_append]
  exact ((((((List.Sublist.refl ["class", "args", "jid", "queue"]).append
    (map_fst_memberOf? ..)).append (map_fst_textsMember ..)).append
    (map_fst_memberOf? ..)).append (map_fst_memberOf? ..)).append (map_fst_textsMember ..))

theorem nodup_fieldNames : fieldNames.Nodup := by decide

/-- The fields that a job is read back from. -/
def fields (j : Job) : Json.Fields := Dictionary.ofList j.members

theorem fields?_toJson (j : Job) : Json.fields? fieldNames j.toJson = some j.fields :=
  Json.fields?_object j.map_fst_members nodup_fieldNames

theorem get?_fields (j : Job) (name : String) :
    j.fields.get? name = Dictionary.find name j.members :=
  Json.get?_of_members j.map_fst_members nodup_fieldNames name

theorem ofJson?_toJson (j : Job) : ofJson? j.toJson = some j.inWholeSeconds := by
  have hget := j.get?_fields
  simp only [members, Dictionary.find_append, find_memberOf?, find_textsMember] at hget
  have hclass : j.fields.get "class" Json.text? = some j.worker := by
    simp [Json.Fields.get, hget, Dictionary.find, Json.text?]
  have hargs : j.fields.get "args" Json.values? = some j.args := by
    simp [Json.Fields.get, hget, Dictionary.find, Json.values?_map_json]
  have hid : j.fields.get "jid" Json.text? = some j.id.text := by
    simp [Json.Fields.get, hget, Dictionary.find, Json.text?]
  have hqueue : j.fields.getD "queue" Json.text? defaultQueue = some j.queue := by
    simp [Json.Fields.getD, hget, Dictionary.find, Json.text?]
  have hat : j.fields.getD "at" (Json.optional? Json.timestamp?) none =
      some (j.runAt.map Timestamp.wholeSecond) :=
    Json.getD_of_map (fun t : Timestamp ↦ .int t.secs) (by simp [hget, Dictionary.find])
      Timestamp.timestamp?_int_secs Timestamp.int_secs_ne_null
  have hlocations : j.fields.getD "wal_locations" Json.texts? .empty = some j.locations :=
    Json.getD_of_texts (by simp [hget, Dictionary.find])
  have hkey : j.fields.getD "idempotency_key" (Json.optional? Json.text?) none =
      some (j.key.map fun k ↦ k) :=
    Json.getD_of_map .string (by simp [hget, Dictionary.find]) (fun _ ↦ rfl) (by simp)
  have hduplicateOf : j.fields.getD "duplicate-of" (Json.optional? Json.text?) none =
      some (j.duplicateOf.map (·.text)) :=
    Json.getD_of_map (fun id : JobId ↦ .string id.text) (by simp [hget, Dictionary.find])
      (fun _ ↦ rfl) (by simp)
  have hlatest : j.fields.getD "dedup_wal_locations" Json.texts? .empty = some j.latest :=
    Json.getD_of_texts (by simp [hget, Dictionary.find])
  have hback : (j.duplicateOf.map (·.text)).map JobId.mk = j.duplicateOf := by
    cases j.duplicateOf <;> rfl
  rw [ofJson?, fields?_toJson]
  simp only [Option.bind_eq_bind, Option.bind_some, hclass, hargs, hid, hqueue, hat, hlocations,
    hkey, hduplicateOf, hlatest, hback, Option.map_id', inWholeSeconds]

/-! ### What is written of a job is readable -/

theorem readableIn_memberOf? {α : Type} {write : α → Json} {room : Nat} (name : String)
    (o : Option α) (h : ∀ a, Json.ReadableIn room (write a)) :
    ∀ e ∈ memberOf? name write o, Json.ReadableIn room e.2 := by
  intro e he
  cases o with
  | none => cases he
  | some a =>
    rw [List.mem_singleton.mp he]
    exact h a

theorem readableIn_textsMember (room : Nat) (name : String) (d : Dictionary String) :
    ∀ e ∈ textsMember name d, Json.ReadableIn (room + 1) e.2 := by
  intro e he
  unfold textsMember at he
  split at he
  · cases he
  · rw [List.mem_singleton.mp he]
    exact .ofTexts room d

/-- Only the arguments can be nested deeply: two levels are the job's own. -/
theorem readableIn_toJson {j : Job} {room : Nat} (h : ∀ v ∈ j.args, v.json.depth ≤ room) :
    Json.ReadableIn (room + 2) j.toJson := by
  have hargs : Json.ReadableIn (room + 1) (.array (j.args.map (·.json))) := by
    refine .array fun d hd ↦ ?_
    obtain ⟨v, hv, rfl⟩ := List.mem_map.mp hd
    exact ⟨Json.denotes_of_settled v.settled, h v hv⟩
  have hown : ∀ e ∈ [("class", Json.string j.worker), ("args", .array (j.args.map (·.json))),
      ("jid", .string j.id.text), ("queue", .string j.queue)],
      Json.ReadableIn (room + 1) e.2 := by
    simp only [List.forall_mem_cons]
    exact ⟨.string _ _, hargs, .string _ _, .string _ _, by simp⟩
  rw [toJson_eq]
  refine .object ?_
  simp only [members, List.forall_mem_append]
  exact ⟨⟨⟨⟨⟨hown, readableIn_memberOf? _ _ fun t ↦ .int t.isWord_secs _⟩,
    readableIn_textsMember _ _ _⟩, readableIn_memberOf? _ _ fun k ↦ .string _ k⟩,
    readableIn_memberOf? _ _ fun id ↦ .string _ id.text⟩, readableIn_textsMember _ _ _⟩

/-- The arguments of the job are nested no deeper than the reader of jobs allows. -/
def WithinDepth (j : Job) : Prop := ∀ v ∈ j.args, v.json.depth + 2 ≤ Json.depthLimit

theorem ofWire?_wire {j : Job} (h : j.WithinDepth) : ofWire? j.wire = some j.inWholeSeconds := by
  have hread : Json.ReadableIn (125 + 2) j.toJson :=
    readableIn_toJson fun v hv ↦ Nat.le_of_add_le_add_right (h v hv)
  exact (Json.readAs?_compact hread).trans j.ofJson?_toJson

theorem inWholeSeconds_idem (j : Job) : j.inWholeSeconds.inWholeSeconds = j.inWholeSeconds := by
  rw [inWholeSeconds, inWholeSeconds, Option.map_map]
  rfl

theorem inWholeSeconds_of_whole {j : Job} (h : ∀ t ∈ j.runAt, t.subsec = 0) :
    j.inWholeSeconds = j := by
  have hrunAt : j.runAt.map Timestamp.wholeSecond = j.runAt := by
    cases hr : j.runAt with
    | none => rfl
    | some t => exact congrArg some (Timestamp.wholeSecond_of_subsec (h t hr))
  rw [inWholeSeconds, hrunAt]

end Job

/-! ### The other records -/

open Json (ReadableIn)

theorem Duration.readableIn_toJson (room : Nat) (d : Duration) :
    ReadableIn (room + 1) d.toJson := by
  have hsubsec := Nat.lt_trans d.subsec_lt (by decide : 1_000_000_000 < UInt64.size)
  refine .object ?_
  simp only [List.forall_mem_cons]
  exact ⟨.nat d.secs_lt room, .nat hsubsec room, by simp⟩

theorem Uniqueness.readableIn_toJson (room : Nat) (u : Uniqueness) :
    ReadableIn (room + 2) u.toJson := by
  have hwindow : ReadableIn (room + 1) ((u.window.map Duration.toJson).getD .null) := by
    cases u.window with
    | none => exact .null _
    | some d => exact d.readableIn_toJson room
  refine .object ?_
  simp only [List.forall_mem_cons]
  exact ⟨.bool _ _, .string _ _, hwindow, .bool _ _, .string _ _, by simp⟩

theorem Worker.readableIn_toJson (room : Nat) (w : Worker) : ReadableIn (room + 3) w.toJson := by
  refine .object ?_
  simp only [List.forall_mem_cons]
  exact ⟨.bool _ _, w.uniqueness.readableIn_toJson room, by simp⟩

theorem Settings.readableIn_toJson (room : Nat) (s : Settings) : ReadableIn (room + 2) s.toJson := by
  refine .object ?_
  simp only [List.forall_mem_cons]
  exact ⟨.string _ _, s.window.readableIn_toJson room, s.latestTtl.readableIn_toJson room,
    .string _ _, s.timeout.readableIn_toJson room, .string _ _, by simp⟩

/-- A job put off to half a second before 1970 began, with a fraction and an escape among its
arguments. -/
def Job.putOff : Job where
  worker := "report:weekly"
  args := [⟨.array [.number (.double ⟨false, 4612811918334230528, by decide⟩), .string "\n"],
    by simp [Json.Settled, Json.SettledItems]⟩]
  id := ⟨"4f1c"⟩
  queue := "low"
  runAt := Timestamp.ofParts? (-1) 500_000_000
  locations := Dictionary.empty.insert "main" "0/16B3748"
  key := none
  duplicateOf := some ⟨"4f1b"⟩
  latest := .empty

end UniqueJobs
