import UniqueJobs.Main
import UniqueJobs.Site
import UniqueJobs.Store.Rehearsed
import UniqueJobs.Proofs.Contest.Election
import UniqueJobs.Proofs.Contest.Cleanup
import UniqueJobs.Proofs.Contest.Furthest
import UniqueJobs.Proofs.Contest.Failure
import UniqueJobs.Proofs.Contest.Isolation
import UniqueJobs.Proofs.Contest.Inspection
import UniqueJobs.Proofs.Contest.Healing
import UniqueJobs.Proofs.Passage.Suppression
import UniqueJobs.Proofs.Passage.Account
import UniqueJobs.Proofs.Traffic.Ownership
import UniqueJobs.Proofs.Journal.Duplicate
import UniqueJobs.Proofs.Journal.Exclusion
import UniqueJobs.Proofs.Journal.Told
import UniqueJobs.Proofs.Journal.Cover
import UniqueJobs.Proofs.Journal.Reminder
import UniqueJobs.Proofs.Journal.Rerun
import UniqueJobs.Proofs.Journal.Handover
import UniqueJobs.Proofs.Journal.PutOff
import UniqueJobs.Proofs.Strand.Crossing
import UniqueJobs.Proofs.Job.Identity
import UniqueJobs.Proofs.Job.Wire
import UniqueJobs.Proofs.Store.Observation
import UniqueJobs.Proofs.Passage.OptOut
import UniqueJobs.Proofs.Passage.Payload
import UniqueJobs.Proofs.Site.Offer
import UniqueJobs.Proofs.Remote.Single
import UniqueJobs.Proofs.Remote.Expiry
import UniqueJobs.Proofs.Store.Deletion
import UniqueJobs.Proofs.Store.Joining
import UniqueJobs.Proofs.Settings
