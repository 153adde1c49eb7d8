import UniqueJobs.Job.Key
import UniqueJobs.Proofs.Store.Procedures

/-!
The records kept under the key of one logical job. Their names are pairwise different whatever the
configs are called, and `Record.Fits` says what each of them may hold.
-/

namespace UniqueJobs

/-- A record under the key of a logical job, by what it is for. -/
inductive Record
  | holder
  | flag
  | configs
  | baseline (config : String)
  | latest (config : String)
  deriving DecidableEq

namespace Record

def name (k : JobKey) : Record → String
  | holder => k.text
  | flag => k.flag
  | configs => k.configs
  | baseline config => k.baseline config
  | latest config => k.latest config

/-- What a name adds to the text of the key. -/
def ending : Record → String
  | holder => ""
  | flag => ":deduplicate_flag"
  | configs => ":wal_configs"
  | baseline config => ":" ++ config ++ ":existing_wal_location"
  | latest config => ":" ++ config ++ ":wal_location"

theorem name_eq (k : JobKey) (r : Record) : r.name k = k.text ++ r.ending := by
  cases r with
  | holder => exact String.append_empty.symm
  | flag | configs => rfl
  | baseline config | latest config =>
    simp only [name, ending, JobKey.baseline, JobKey.latest, String.append_assoc]

/-- The request that finds what a record holds: of a list, its first item. -/
def reading (k : JobKey) : Record → Request
  | latest config => .item (k.latest config) 0
  | r => .get (r.name k)

/-- What a record may hold: a furthest position is a location with its offset as a number, and the
set of configs is never empty. -/
def Fits : Record → Content → Prop
  | holder, .text _ | flag, .text _ | baseline _, .text _ => True
  | configs, .names set => ∃ config, set.contains config = true
  | latest _, .list items => ∃ location, ∃ offset : Int64, items = [location, toString offset.toInt]
  | _, _ => False

def AllFit (k : JobKey) (now : Instant) (es : Entries) : Prop :=
  ∀ (r : Record) (e : Entry), es.live? now (r.name k) = some e → r.Fits e.content

def lastChar? : Record → Option Char
  | holder => none
  | flag => some 'g'
  | configs => some 's'
  | baseline _ | latest _ => some 'n'

theorem head?_reverse_ending (r : Record) : r.ending.toList.reverse.head? = r.lastChar? := by
  cases r <;> simp [ending, lastChar?]

/-- Whatever two configs are called, a baseline is not named like a furthest position. -/
theorem ending_baseline_ne_ending_latest (config config' : String) :
    (baseline config).ending ≠ (latest config').ending := by
  intro h
  -- The twelve characters that both end with leave a letter of the one and a colon of the other.
  have hr := congrArg (fun s : String ↦ (s.toList.reverse.drop 12).head?) h
  simp [ending] at hr

theorem ending_injective {r r' : Record} (h : r.ending = r'.ending) : r = r' := by
  have hlast := congrArg (fun s : String ↦ s.toList.reverse.head?) h
  simp only [head?_reverse_ending] at hlast
  cases r with
  | holder => cases r' <;> first | rfl | cases hlast
  | flag => cases r' <;> first | rfl | cases hlast
  | configs => cases r' <;> first | rfl | cases hlast
  | baseline config =>
    cases r' with
    | holder | flag | configs => cases hlast
    | baseline config' =>
      simp only [ending, String.append_left_inj, String.append_right_inj] at h
      rw [h]
    | latest config' => exact absurd h (ending_baseline_ne_ending_latest config config')
  | latest config =>
    cases r' with
    | holder | flag | configs => cases hlast
    | baseline config' => exact absurd h.symm (ending_baseline_ne_ending_latest config' config)
    | latest config' =>
      simp only [ending, String.append_left_inj, String.append_right_inj] at h
      rw [h]

theorem name_injective (k : JobKey) (r r' : Record) (h : r.name k = r'.name k) : r = r' := by
  rw [name_eq, name_eq, String.append_right_inj] at h
  exact ending_injective h

theorem name_ne (k : JobKey) {r r' : Record} (h : r ≠ r') : r.name k ≠ r'.name k :=
  fun heq ↦ h (name_injective k r r' heq)

theorem latest_ne_configs (k : JobKey) (config : String) : k.latest config ≠ k.configs := by
  have h : Record.latest config ≠ configs := by simp
  exact name_ne k h

end Record

end UniqueJobs
