import UniqueJobs.Text.Numeral
import UniqueJobs.Text.Quoted

/-!
Procedures that the store of records runs on its own side, each as one step. A store that takes
programs is sent their text; the text of `advance` names four arguments, the location, its offset,
the time to live in milliseconds and the config.
-/

namespace UniqueJobs

inductive Procedure
  /-- Keep the furthest position of a config. The first key holds a location and its offset from the
  baseline, and is made when it is not there, else changed only for a greater offset; the second key
  holds the configs with records, which the config joins. -/
  | advance
  /-- Delete the records of a job: the three keys, which are the job's own, its flag and its configs,
  and both position records of every config that the third key or the arguments name. -/
  | release
  deriving DecidableEq, Repr

namespace Procedure

def name : Procedure → String
  | advance => "update_latest_wal_location"
  | release => "release_job_keys"

def advanceLines : List String := [
    "",
    "                local key = KEYS[1]",
    "                local configs = KEYS[2]",
    "                local location = ARGV[1]",
    "                local offset = ARGV[2]",
    "                local ttl = ARGV[3]",
    "                local config = ARGV[4]",
    "",
    "                local current = redis.call('LINDEX', key, -1)",
    "                if current == false then",
    "                    redis.call('RPUSH', key, location, offset)",
    "                    redis.call('PEXPIRE', key, ttl)",
    "                elseif tonumber(offset) > tonumber(current) then",
    "                    redis.call('LSET', key, 0, location)",
    "                    redis.call('LSET', key, 1, offset)",
    "                end",
    "",
    "                redis.call('SADD', configs, config)",
    "                redis.call('PEXPIRE', configs, ttl, 'NX')",
    "                redis.call('PEXPIRE', configs, ttl, 'GT')",
    "                return 0",
    "                "]

def releaseLines : List String := [
    "",
    "                local key = KEYS[1]",
    "                local doomed = \x7b KEYS[1], KEYS[2], KEYS[3] \x7d",
    "",
    "                local function release(config)",
    "                    table.insert(doomed, key .. ':' .. config .. ':existing_wal_location')",
    "                    table.insert(doomed, key .. ':' .. config .. ':wal_location')",
    "                end",
    "",
    "                for _, config in ipairs(redis.call('SMEMBERS', KEYS[3])) do",
    "                    release(config)",
    "                end",
    "                for _, config in ipairs(ARGV) do",
    "                    release(config)",
    "                end",
    "                return redis.call('DEL', unpack(doomed))",
    "                "]

def source : Procedure → String
  | advance => "\n".intercalate advanceLines
  | release => "\n".intercalate releaseLines

inductive Fault
  | keyCount (expected got : Nat)
  | argumentCount (expected got : Nat)
  | offset (text : String) (f : Text.NumeralFault)
  | ttl (text : String) (f : Text.NumeralFault)
  | storedOffset (key : String)
  /-- The reason that a store gives in its own words. -/
  | other (reason : String)
  deriving DecidableEq

def Fault.message : Fault → String
  | .keyCount expected got => s!"expected {expected} keys, got {got}"
  | .argumentCount expected got => s!"expected {expected} arguments, got {got}"
  | .offset text f => s!"offset {Text.quoted text}: {f.message}"
  | .ttl text f => s!"ttl {Text.quoted text}: {f.message}"
  | .storedOffset key => s!"malformed offset at {key}"
  | .other reason => reason

end Procedure

end UniqueJobs
