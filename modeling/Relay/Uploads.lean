import Relay.ClientApproval

/-!
# Uploads that are refused

`confirm_media_upload` marks an asset as failed when its object is not the one announced, and
raises in the same transaction.  The exception takes the mark back.

* `StoreStep.unfailed`, `no_failed_asset`: no asset is ever stored as failed;
* `DurablyRejected`, `never_durably_rejected`: what a refusal leaves behind.
-/

namespace Relay

open Relational Transition

/-- No asset is marked as failed. -/
def Unfailed (s : Store) : Prop := ∀ a ∈ s.assets, a.uploadState ≠ .failed

section Unfailed

variable {env : Env} {s s' : Store}

/-- An asset is pending when it is announced, and ready when it is confirmed. -/
theorem Effect.unfailed {w : World} {c : Command} {r : Reply} (h : Effect env w c r s s')
    (hs : Unfailed s) : Unfailed s' := by
  cases h with
  | uploadIntended _ _ insert =>
    intro a ha
    rcases (Table.mem_insert? insert).1 ha with ha | rfl
    · exact hs a ha
    · exact UploadState.noConfusion
  | confirmed =>
    intro a ha
    obtain ⟨b, hb, rfl⟩ := Table.mem_update.1 ha
    split
    · exact UploadState.noConfusion
    · exact hs b hb
  | _ => exact hs

/-- Whatever services were called, no asset is stored as failed. -/
theorem no_failed_asset (h : Reachable (services env) s) : Unfailed s := by
  refine h.invariant ?_ fun s call t hs hstep => ?_
  · rintro _ ⟨tenants, brands, memberships, rfl⟩ a ha
    exact absurd ha (Table.not_mem_empty a)
  · rw [show t = afterCall env s call from hstep, afterCall]
    split
    · rename_i hrun
      exact (runCommand_effect hrun).unfailed hs
    · exact hs

end Unfailed

/-- The call refuses the object, and the asset is stored as failed when its transaction has ended. -/
def DurablyRejected (env : Env) (w : World) (subject : String) (row : MediaAsset) (s : Store) : Prop :=
  runCommand env w (.confirmMediaUpload row.id row.tenant subject) s = .error .invalidMediaAsset ∧
    (afterCall env s (w, .confirmMediaUpload row.id row.tenant subject)).assets.view (·.uploadState)
      row.id = some .failed

section Confirm

variable {env : Env} {w : World} {subject : String} {row : MediaAsset} {metadata : ObjectMetadata}
  {s : Store}

/-- The asset that a confirmation locks. -/
theorem find_asset (mem : row ∈ s.assets) :
    (s.assets.find? fun a => a.id = row.id && a.tenant = row.tenant) = some row := by
  refine Table.find?_of_key mem (by simp) fun a ha => ?_
  obtain ⟨hid, -⟩ : a.id = row.id ∧ a.tenant = row.tenant := by simpa using ha
  exact hid

/-- The object that was announced: the asset is ready. -/
theorem confirm_match (subject : String) (mem : row ∈ s.assets) (pending : row.uploadState = .pending)
    (configured : env.b2Configured = true) (object : w.head row.storageKey = .ok metadata)
    (same : metadata.mismatch row = false) :
    runCommand env w (.confirmMediaUpload row.id row.tenant subject) s =
      .ok (.confirmed { row with uploadState := .ready, updatedAt := w.now },
        (s.setUploadState w.now row.id .ready).log (serviceEvent row.tenant row.brand subject
          "media.upload_confirmed" "media_asset" row.id [("content_type", .str row.contentType),
            ("size_bytes", .int row.sizeBytes)])) := by
  simp only [runCommand, confirmMediaUpload, atomic, confirmMediaUploadBody, find_asset mem, pending,
    configured, object, same]
  rfl

/-- Another object: the body marks the asset, and the exception rolls the mark back. -/
theorem confirm_mismatch (mem : row ∈ s.assets) (pending : row.uploadState = .pending)
    (configured : env.b2Configured = true) (object : w.head row.storageKey = .ok metadata)
    (other : metadata.mismatch row = true) :
    confirmMediaUploadBody env w.head w.now row.id row.tenant subject s =
        (.error .invalidMediaAsset, s.setUploadState w.now row.id .failed) ∧
      runCommand env w (.confirmMediaUpload row.id row.tenant subject) s =
        .error .invalidMediaAsset := by
  have hbody : confirmMediaUploadBody env w.head w.now row.id row.tenant subject s =
      (.error .invalidMediaAsset, s.setUploadState w.now row.id .failed) := by
    simp only [confirmMediaUploadBody, find_asset mem, pending, configured, object, other]
    rfl
  refine ⟨hbody, ?_⟩
  simp only [runCommand, confirmMediaUpload, atomic, hbody]
  rfl

end Confirm

/-- **No refusal is durable.**  For every pending asset and every object that is not the one
announced, the call raises, but the asset is stored as pending; and a later call that finds an
object like the one announced makes it ready. -/
theorem never_durably_rejected {env : Env} {w : World} {subject : String} {row : MediaAsset}
    {metadata : ObjectMetadata} {s : Store} (mem : row ∈ s.assets)
    (pending : row.uploadState = .pending) (configured : env.b2Configured = true)
    (object : w.head row.storageKey = .ok metadata) (other : metadata.mismatch row = true) :
    ¬ DurablyRejected env w subject row s ∧
      runCommand env w (.confirmMediaUpload row.id row.tenant subject) s = .error .invalidMediaAsset ∧
      afterCall env s (w, .confirmMediaUpload row.id row.tenant subject) = s ∧
      ∀ w' metadata', w'.head row.storageKey = .ok metadata' → metadata'.mismatch row = false →
        (afterCall env s (w', .confirmMediaUpload row.id row.tenant subject)).assets.view
          (·.uploadState) row.id = some .ready := by
  have hraises : runCommand env w (.confirmMediaUpload row.id row.tenant subject) s =
      .error .invalidMediaAsset := (confirm_mismatch mem pending configured object other).2
  have hsame : afterCall env s (w, .confirmMediaUpload row.id row.tenant subject) = s := by
    simp only [afterCall, hraises]
  have hview : s.assets.view (·.uploadState) row.id = some .pending :=
    (Table.view_key mem).trans (by rw [pending])
  refine ⟨fun hdurable => ?_, hraises, hsame, fun w' metadata' object' same => ?_⟩
  · have hfailed := hdurable.2
    rw [hsame, hview] at hfailed
    cases hfailed
  · simp only [afterCall, confirm_match _ mem pending configured object' same]
    have hready : (s.setUploadState w'.now row.id .ready).assets.view (·.uploadState) =
        Function.update (s.assets.view (·.uploadState)) row.id (some .ready) := Table.view_update mem
    exact (congrFun hready row.id).trans (Function.update_self _ _ _)

namespace Sample

/-- The workspace after one asset of one byte is announced. -/
def announced : Store :=
  afterCall env start.store (⟨draws 10, 0⟩, .createMediaUploadIntent workspace brand "" ⟨"a.png",
    "image/png", 1, ""⟩)

theorem announced_reachable : Reachable (services env) announced :=
  ⟨_, _, ⟨_, _, _, rfl⟩, trail_of_calls env start.store [_]⟩

/-- Its row. -/
def announcedAsset : MediaAsset :=
  newMediaAsset env 0 asset workspace brand ⟨"a.png", "image/png", 1, ""⟩

/-- A storage client that finds an object of two bytes. -/
def larger : World := ⟨{ draws 0 with head := fun _ => .ok ⟨some 2, some "image/png", none⟩ }, 1⟩

end Sample

/-- An object of two bytes for an asset of one. -/
theorem never_durably_rejected_sample :
    ¬ DurablyRejected Sample.env Sample.larger "" Sample.announcedAsset Sample.announced :=
  (never_durably_rejected (show Sample.announcedAsset ∈ Sample.announced.assets by decide +kernel)
    rfl (by decide +kernel) rfl (by decide +kernel)).1

/-- The same asset: refused, stored as pending, and ready after a second call. -/
theorem refusal_rolled_back : ¬ ∀ (env : Env) (s : Store), Reachable (services env) s →
    ∀ (w : World) (subject : String) (metadata : ObjectMetadata), ∀ row ∈ s.assets,
      row.uploadState = .pending → env.b2Configured = true → w.head row.storageKey = .ok metadata →
      metadata.mismatch row = true → DurablyRejected env w subject row s := by
  intro h
  have hdurable := h Sample.env Sample.announced Sample.announced_reachable Sample.larger ""
    ⟨some 2, some "image/png", none⟩ Sample.announcedAsset (by decide +kernel) rfl
    (by decide +kernel) rfl (by decide +kernel)
  exact absurd hdurable.2 (by decide +kernel)

end Relay
