import SpikeHub.L5Runs.Objects

/-!
# Two transfers of one upload share a staging file

Behaviour (hub_api/storage/volume.py:60-93): the staging path is the upload
id, and nothing keeps a second `PUT …/content` of the same upload from opening
it while a first one is between its last chunk and its rename. Opening
truncates, so the first request, whose digest was taken over its own chunks,
renames an emptied or half-written file to the key of that digest.

What the code says: "A partially written artifact is never reachable under
its final name" (volume.py:11-13) and, where an existing object is reused,
"Content-addressed: the bytes already stored are these bytes" (volume.py:90).

Counterexample: two requests for one upload, both with the right bytes. The
first streams them all and passes its checks; the second opens the staging
file; the first renames it. The object stored under the digest of the three
bytes is empty.

When it does hold: in every run in which a request opens a staging file only
while no other request of that upload is between opening it and promoting it
(`exclusive`), every object is the bytes its key names, whatever else is
interleaved.
-/
namespace SpikeHub.Bugs.ContentAddress

open SpikeHub.Core SpikeHub.L1 SpikeHub.L2 SpikeHub.L5.Interleave

theorem contentAddressed_of_exclusive (config : Settings) (s : Sys)
    (h : ((lts config).restrict fun s l => exclusive s l = true).Reachable s) :
    ContentAddressed s.hub.volume :=
  ((intact_inductive config).reachable s h).contentAddressed

/-- One upload, received in two chunks while another request waits. -/
def oneTransfer : List Lbl :=
  [reserving [97, 98, 99] "1.0", .content alice.id 1 [[97], [98, 99]],
    .content alice.id 1 [[97, 98, 99]], .step 0, .step 1, .step 0, .step 0, .step 0, .step 0,
    .step 0, .step 0, .step 0]

/-- Something is stored, and it is what its key names. -/
theorem contentAddressed_after_transfer :
    ∃ s : Sys, (∃ key, s.hub.volume.present (.artifact key) = true) ∧
      ContentAddressed s.hub.volume := by
  obtain ⟨s, hs, hp⟩ := reachable_of_trace {} (fun s l => exclusive s l = true) oneTransfer
    (fun s => (objectKey (sha256 [97, 98, 99])).toOption.any fun key =>
      s.hub.volume.present (.artifact key)) (by decide +kernel)
  obtain ⟨key, -, hkey⟩ := (Option.any_eq_true _ _).mp hp
  exact ⟨s, ⟨key, hkey⟩, contentAddressed_of_exclusive {} s hs⟩

/-- The second request opens the file the first is about to promote. -/
def overlap : List Lbl :=
  [reserving [97, 98, 99] "1.0", .content alice.id 1 [[97, 98, 99]],
    .content alice.id 1 [[97, 98, 99]], .step 0, .step 1, .step 0, .step 0, .step 0, .step 0,
    .step 1, .step 0, .step 0]

theorem not_contentAddressed :
    ¬ ∀ s, (lts {}).Reachable s → ContentAddressed s.hub.volume := by
  intro h
  obtain ⟨s, hs, hp⟩ := reachable_of_trace {} (fun _ _ => True) overlap
    (fun s => (objectKey (sha256 [97, 98, 99])).toOption.any fun key =>
      s.hub.volume.read (.artifact key) = some []) (by decide +kernel)
  obtain ⟨key, hkey, hread⟩ := (Option.any_eq_true _ _).mp hp
  have hkey : objectKey (sha256 [97, 98, 99]) = .ok key := by
    cases ho : objectKey (sha256 [97, 98, 99]) with
    | error e => rw [ho] at hkey; cases hkey
    | ok k => rw [ho] at hkey; cases hkey; rfl
  have he := h s hs.of_restrict _ _ _ hkey (by simpa using hread)
  exact absurd he (by decide +kernel)

end SpikeHub.Bugs.ContentAddress
