import SpikeHub.Core.Hasher
import SpikeHub.Core.LTS
import SpikeHub.L2Storage.Volume

/-!
# A transfer, chunk by chunk

`stage` taken apart at its awaits, with the iterator it reads: `taken` are the
chunks the iterator has handed over, `rest` those it was not asked for yet. The
counter, the running digest, the handle and the file are kept apart, as
`_write` keeps them; `At` says at each await how they are related, and is kept
by every step (`at_step`), so it holds all along a transfer (`at_steps`).
Taken to its end, a transfer is the call (`stage_steps`).

`exact_cap` is what the cap is for. The stream is compared with it each time a
chunk arrives: nothing beyond it is written, the first chunk that goes beyond
it is the last that is asked for, and a stream within it is stored and measured
as it is. A stream of no chunks is never compared with it, which shows only
below zero.
-/
namespace SpikeHub.L2

open SpikeHub.Core SpikeHub.L1

/-- A file open for writing, standing at `pos`. -/
structure Handle where
  ino : Nat
  pos : Nat

/-- Where `stage` stands: about to open the file, to ask for a chunk, to write
the one it asked for, to flush and sync, to discard what it wrote, or through. -/
inductive StagePc
  | opening
  | reading (handle : Handle) (digest : Sha256.Hasher) (written : Nat)
  | writing (handle : Handle) (digest : Sha256.Hasher) (written : Nat) (chunk : Bytes)
  | syncing (digest : Sha256.Hasher) (written : Nat)
  | refused (e : Raised)
  | done (res : Except Raised StoredBlob)

structure Transfer where
  volume : Volume
  taken : List Bytes
  rest : List Bytes
  pc : StagePc

namespace Transfer

def start (fs : Volume) (chunks : List Bytes) : Transfer := ⟨fs, [], chunks, .opening⟩

/-- mirrors hub_api/storage/volume.py:45-77, with discard (95-98) -/
def step (u : Uuid) (maxBytes : Int) (cut : Bool) (t : Transfer) : Option Transfer :=
  match t.pc with
  | .opening =>
    let (volume, ino) := t.volume.openTrunc (.staging u)
    some { t with volume := volume, pc := .reading ⟨ino, 0⟩ .new 0 }
  | .reading handle digest written =>
    match t.rest with
    | [] =>
      if cut then some { t with pc := .done (.error .clientDisconnect) }
      else some { t with pc := .syncing digest written }
    | chunk :: rest =>
      -- from the chunk's arrival to its write there is no await
      let received := { t with taken := t.taken ++ [chunk], rest := rest }
      let written := written + chunk.length
      match checkCap written maxBytes with
      | .ok _ => some { received with pc := .writing handle (digest.update chunk) written chunk }
      | .error e => some { received with pc := .refused e }
  | .writing handle digest written chunk =>
    some { t with
      volume := t.volume.writeAt handle.ino handle.pos chunk
      pc := .reading ⟨handle.ino, handle.pos + chunk.length⟩ digest written }
  | .syncing digest written => some { t with pc := .done (.ok ⟨digest.hexdigest, written⟩) }
  | .refused e => some { t with volume := t.volume.unlink (.staging u), pc := .done (.error e) }
  | .done _ => none

/-- What a transfer comes to by its own steps. -/
abbrev Steps (u : Uuid) (maxBytes : Int) (cut : Bool) : Transfer → Transfer → Prop :=
  LTS.Steps (step u maxBytes cut)

end Transfer

/-! ## The cap -/

/-- The bytes of so many chunks. -/
def total (chunks : List Bytes) : Nat := chunks.flatten.length

/-- No chunk, or no more bytes than the cap. -/
def Fits (maxBytes : Int) (chunks : List Bytes) : Prop := chunks = [] ∨ (total chunks : Int) ≤ maxBytes

/-- The first chunk that goes beyond the cap, what came before it and what comes after. -/
structure Overflows (maxBytes : Int) (chunks before : List Bytes) (chunk : Bytes) (rest : List Bytes) :
    Prop where
  parts : chunks = before ++ chunk :: rest
  first : ∀ earlier, earlier <+: before → Fits maxBytes earlier
  beyond : maxBytes < total (before ++ [chunk])

/-- What `_check_cap` raises. -/
def tooLarge (maxBytes : Int) : Raised :=
  .hub ⟨.quotaExceeded, "the upload is larger than the reservation allowed", [("limit_bytes", .int maxBytes)]⟩

variable {u : Uuid} {maxBytes : Int} {cut : Bool} {chunks before taken rest : List Bytes} {chunk : Bytes}
  {fs fs₀ : Volume} {t t' : Transfer}

theorem total_append (a b : List Bytes) : total (a ++ b) = total a + total b := by
  unfold total
  rw [List.flatten_append, List.length_append]

theorem total_concat (a : List Bytes) (chunk : Bytes) : total (a ++ [chunk]) = total a + chunk.length := by
  rw [total_append]
  simp [total]

/-- What fits, fits from the first chunk on. -/
theorem Fits.earlier (h : Fits maxBytes chunks) (hp : before <+: chunks) : Fits maxBytes before := by
  obtain ⟨rest, rfl⟩ := hp
  rcases h with hnone | hle
  · exact .inl (List.append_eq_nil_iff.mp hnone).1
  · rw [total_append] at hle
    exact .inr (by omega)

theorem fits_concat : Fits maxBytes (before ++ [chunk]) ↔ (total (before ++ [chunk]) : Int) ≤ maxBytes :=
  or_iff_right (by simp)

theorem Overflows.not_fits (h : Overflows maxBytes chunks before chunk rest) : ¬ Fits maxBytes chunks := by
  intro hfits
  have hp : before ++ [chunk] <+: chunks := ⟨rest, by rw [h.parts]; simp⟩
  exact absurd (fits_concat.mp (hfits.earlier hp)) (by have := h.beyond; omega)

theorem Fits.bounded (h : Fits maxBytes chunks) : (total chunks : Int) ≤ max maxBytes 0 := by
  rcases h with rfl | hle
  · exact Int.le_max_right _ _
  · omega

theorem checkCap_eq {written : Int} : checkCap written maxBytes =
    if written > maxBytes then .error (tooLarge maxBytes) else .ok () := rfl

theorem checkCap_within {written : Int} (h : written ≤ maxBytes) : checkCap written maxBytes = .ok () := by
  rw [checkCap_eq, if_neg (by omega)]

theorem checkCap_beyond {written : Int} (h : maxBytes < written) :
    checkCap written maxBytes = .error (tooLarge maxBytes) := by
  rw [checkCap_eq, if_pos h]

/-! ## The file -/

/-- The handle stands at the end of the staging file, which holds `bs`; every
other name reads as in `fs₀`. -/
structure Writes (u : Uuid) (fs₀ fs : Volume) (handle : Handle) (bs : Bytes) : Prop where
  names : fs.lookup (.staging u) = some handle.ino
  holds : fs.data handle.ino = bs
  stands : handle.pos = bs.length
  others : fs₀.Rewrites (.staging u) (some bs) fs

theorem writes_open (u : Uuid) (fs : Volume) :
    Writes u fs (fs.openTrunc (.staging u)).1 ⟨(fs.openTrunc (.staging u)).2, 0⟩ [] where
  names := by rw [Fs.lookup_openTrunc, if_pos rfl]
  holds := by rw [Fs.data_openTrunc, if_pos rfl]
  stands := rfl
  others := Fs.rewrites_openTrunc

theorem Writes.write {handle : Handle} {bs : Bytes} (h : Writes u fs₀ fs handle bs) (chunk : Bytes) :
    Writes u fs₀ (fs.writeAt handle.ino handle.pos chunk) ⟨handle.ino, handle.pos + chunk.length⟩
      (bs ++ chunk) := by
  have hw : fs.Rewrites (.staging u) (some (bs ++ chunk)) (fs.writeAt handle.ino handle.pos chunk) := by
    rw [h.stands]
    exact Fs.rewrites_writeAt h.names h.holds
  obtain ⟨ino, hino, hdata⟩ := Fs.read_eq_some.mp hw.at
  obtain rfl : ino = handle.ino := Option.some.inj (hino.symm.trans h.names)
  refine ⟨h.names, hdata, ?_, h.others.trans hw⟩
  rw [h.stands, List.length_append]

/-! ## What holds at each await -/

inductive At (u : Uuid) (maxBytes : Int) (cut : Bool) (fs₀ : Volume) (chunks : List Bytes) : Transfer → Prop
  | opening : At u maxBytes cut fs₀ chunks ⟨fs₀, [], chunks, .opening⟩
  | reading {fs : Volume} {taken rest : List Bytes} {handle : Handle} {digest : Sha256.Hasher} :
      chunks = taken ++ rest → Fits maxBytes taken → Writes u fs₀ fs handle taken.flatten →
      digest.Holds taken.flatten →
      At u maxBytes cut fs₀ chunks ⟨fs, taken, rest, .reading handle digest (total taken)⟩
  | writing {fs : Volume} {before rest : List Bytes} {chunk : Bytes} {handle : Handle}
      {digest : Sha256.Hasher} :
      chunks = before ++ chunk :: rest → Fits maxBytes (before ++ [chunk]) →
      Writes u fs₀ fs handle before.flatten → digest.Holds (before ++ [chunk]).flatten →
      At u maxBytes cut fs₀ chunks
        ⟨fs, before ++ [chunk], rest, .writing handle digest (total (before ++ [chunk])) chunk⟩
  | syncing {fs : Volume} {digest : Sha256.Hasher} :
      cut = false → Fits maxBytes chunks → fs₀.Rewrites (.staging u) (some chunks.flatten) fs →
      digest.Holds chunks.flatten →
      At u maxBytes cut fs₀ chunks ⟨fs, chunks, [], .syncing digest (total chunks)⟩
  | refused {fs : Volume} {before rest : List Bytes} {chunk : Bytes} :
      Overflows maxBytes chunks before chunk rest →
      fs₀.Rewrites (.staging u) (some before.flatten) fs →
      At u maxBytes cut fs₀ chunks ⟨fs, before ++ [chunk], rest, .refused (tooLarge maxBytes)⟩
  | dropped {fs : Volume} {before rest : List Bytes} {chunk : Bytes} :
      Overflows maxBytes chunks before chunk rest → fs₀.Rewrites (.staging u) none fs →
      At u maxBytes cut fs₀ chunks ⟨fs, before ++ [chunk], rest, .done (.error (tooLarge maxBytes))⟩
  | disconnected {fs : Volume} :
      cut = true → Fits maxBytes chunks → fs₀.Rewrites (.staging u) (some chunks.flatten) fs →
      At u maxBytes cut fs₀ chunks ⟨fs, chunks, [], .done (.error .clientDisconnect)⟩
  | returned {fs : Volume} :
      cut = false → Fits maxBytes chunks → fs₀.Rewrites (.staging u) (some chunks.flatten) fs →
      At u maxBytes cut fs₀ chunks ⟨fs, chunks, [], .done (.ok (measure chunks.flatten))⟩

/-- The next chunk is counted, and taken or refused. -/
theorem at_received {taken rest : List Bytes} {handle : Handle} {digest : Sha256.Hasher}
    (hparts : chunks = taken ++ chunk :: rest) (hfits : Fits maxBytes taken)
    (hfile : Writes u fs₀ fs handle taken.flatten) (hdigest : digest.Holds taken.flatten)
    (hs : Transfer.step u maxBytes cut
      ⟨fs, taken, chunk :: rest, .reading handle digest (total taken)⟩ = some t') :
    At u maxBytes cut fs₀ chunks t' := by
  have hcount : (total (taken ++ [chunk]) : Int) = (total taken + chunk.length : Nat) :=
    congrArg Nat.cast (total_concat taken chunk)
  simp only [Transfer.step] at hs
  rcases Int.lt_or_le maxBytes (total (taken ++ [chunk])) with hbeyond | hwithin
  · rw [← total_concat, checkCap_beyond hbeyond] at hs
    cases hs
    exact .refused ⟨hparts, fun earlier hp => hfits.earlier hp, hbeyond⟩ hfile.others
  · rw [← total_concat, checkCap_within hwithin] at hs
    cases hs
    refine .writing hparts (fits_concat.mpr hwithin) hfile ?_
    rw [List.flatten_concat]
    exact hdigest.update chunk

theorem at_step (h : At u maxBytes cut fs₀ chunks t) (hs : Transfer.step u maxBytes cut t = some t') :
    At u maxBytes cut fs₀ chunks t' := by
  cases h with
  | opening =>
    cases hs
    exact .reading rfl (.inl rfl) (writes_open u fs₀) Sha256.Hasher.holds_new
  | @reading fs taken rest handle digest hparts hfits hfile hdigest =>
    cases rest with
    | nil =>
      obtain rfl : chunks = taken := by rw [hparts, List.append_nil]
      cases cut with
      | false =>
        cases hs
        exact .syncing rfl hfits hfile.others hdigest
      | true =>
        cases hs
        exact .disconnected rfl hfits hfile.others
    | cons chunk rest => exact at_received hparts hfits hfile hdigest hs
  | @writing fs before rest chunk handle digest hparts hfits hfile hdigest =>
    cases hs
    refine .reading (by rw [hparts]; simp) hfits ?_ hdigest
    rw [List.flatten_concat]
    exact hfile.write chunk
  | syncing hcut hfits hothers hdigest =>
    cases hs
    rw [hdigest.hexdigest]
    exact .returned hcut hfits hothers
  | refused hover hothers =>
    cases hs
    exact .dropped hover (hothers.trans Fs.rewrites_unlink)
  | dropped => cases hs
  | disconnected => cases hs
  | returned => cases hs

theorem at_steps (hs : Transfer.Steps u maxBytes cut (.start fs₀ chunks) t) :
    At u maxBytes cut fs₀ chunks t := by
  induction hs with
  | refl => exact .opening
  | tail _ hstep ih => exact at_step ih hstep

/-! ## The call -/

section
variable {D : Type} (d : D)

/-- The loop, from the await at which a chunk is asked for. -/
theorem reading_steps (u : Uuid) (maxBytes : Int) (cut : Bool) (i : Nat) (rest : List Bytes) :
    ∀ (got : Bytes) (taken : List Bytes) (fs : Volume) (digest : Sha256.Hasher), digest.Holds got →
    ∃ r w, (writeChunks i maxBytes got rest : Work D Volume Raised Bytes).exec d fs = (r, d, w) ∧
      match r with
      | .ok all => ∃ digest', digest'.Holds all ∧ Transfer.Steps u maxBytes cut
          ⟨fs, taken, rest, .reading ⟨i, got.length⟩ digest got.length⟩
          ⟨w, taken ++ rest, [], .reading ⟨i, all.length⟩ digest' all.length⟩
      | .error e => e = tooLarge maxBytes ∧ ∃ taken' rest', Transfer.Steps u maxBytes cut
          ⟨fs, taken, rest, .reading ⟨i, got.length⟩ digest got.length⟩
          ⟨w, taken', rest', .refused e⟩ := by
  induction rest with
  | nil =>
    intro got taken fs digest hdigest
    refine ⟨.ok got, fs, rfl, digest, hdigest, ?_⟩
    rw [List.append_nil]
  | cons chunk rest ih =>
    intro got taken fs digest hdigest
    unfold writeChunks
    rcases Int.lt_or_le maxBytes ((got.length + chunk.length : Nat) : Int) with hbeyond | hwithin
    · have hcap := checkCap_beyond hbeyond
      refine ⟨.error (tooLarge maxBytes), fs, ?_, rfl, taken ++ [chunk], rest, .single ?_⟩
      · rw [Int.natCast_add] at hcap
        rw [Work.exec_bind, Work.exec_orRaise, hcap]
      · simp only [Transfer.step, hcap]
    · have hcap := checkCap_within hwithin
      obtain ⟨r, w, hx, hr⟩ := ih (got ++ chunk) (taken ++ [chunk]) (fs.writeAt i got.length chunk)
        (digest.update chunk) (hdigest.update chunk)
      have hread : Transfer.step u maxBytes cut
          ⟨fs, taken, chunk :: rest, .reading ⟨i, got.length⟩ digest got.length⟩ =
          some ⟨fs, taken ++ [chunk], rest,
            .writing ⟨i, got.length⟩ (digest.update chunk) (got.length + chunk.length) chunk⟩ := by
        simp only [Transfer.step, hcap]
      have hwrite : Transfer.step u maxBytes cut ⟨fs, taken ++ [chunk], rest,
          .writing ⟨i, got.length⟩ (digest.update chunk) (got.length + chunk.length) chunk⟩ =
          some ⟨fs.writeAt i got.length chunk, taken ++ [chunk], rest,
            .reading ⟨i, (got ++ chunk).length⟩ (digest.update chunk) (got ++ chunk).length⟩ := by
        rw [List.length_append]
        rfl
      refine ⟨r, w, ?_, ?_⟩
      · rw [Int.natCast_add] at hcap
        rw [Work.exec_bind, Work.exec_orRaise, hcap]
        dsimp only
        rw [Work.exec_bind, Work.exec_outside]
        exact hx
      · cases r with
        | ok all =>
          obtain ⟨digest', hall, hsteps⟩ := hr
          rw [List.append_assoc] at hsteps
          exact ⟨digest', hall, .head hread (.head hwrite hsteps)⟩
        | error e =>
          obtain ⟨he, taken', rest', hsteps⟩ := hr
          exact ⟨he, taken', rest', .head hread (.head hwrite hsteps)⟩

/-- Taken to its end, a transfer is the call. -/
theorem stage_steps (u : Uuid) (body : Body) (maxBytes : Int) (fs : Volume) : ∃ r t,
    Transfer.Steps u maxBytes body.cut (.start fs body.chunks) t ∧ t.pc = .done r ∧
      (stage u body maxBytes).exec d fs = (r, d, t.volume) := by
  have hopen : Transfer.step u maxBytes body.cut (.start fs body.chunks) =
      some ⟨(fs.openTrunc (.staging u)).1, [], body.chunks,
        .reading ⟨(fs.openTrunc (.staging u)).2, 0⟩ .new 0⟩ := rfl
  obtain ⟨r, w, hx, hr⟩ := reading_steps d u maxBytes body.cut (fs.openTrunc (.staging u)).2
    body.chunks [] [] (fs.openTrunc (.staging u)).1 .new Sha256.Hasher.holds_new
  unfold stage write
  rw [Work.exec_tryCatch, Work.exec_bind, Work.exec_effect]
  dsimp only
  cases r with
  | error e =>
    obtain ⟨rfl, taken', rest', hsteps⟩ := hr
    rw [Work.exec_bind_error hx]
    exact ⟨.error (tooLarge maxBytes), _, .head hopen (hsteps.tail rfl), rfl, rfl⟩
  | ok all =>
    obtain ⟨digest', hall, hsteps⟩ := hr
    rw [Work.exec_bind_ok hx]
    cases hcut : body.cut with
    | true =>
      rw [hcut] at hopen hsteps
      exact ⟨.error .clientDisconnect, _, .head hopen (hsteps.tail rfl), rfl, rfl⟩
    | false =>
      rw [hcut] at hopen hsteps
      refine ⟨.ok (measure all), ⟨w, [] ++ body.chunks, [], .done (.ok (measure all))⟩,
        .head hopen ((hsteps.tail rfl).tail ?_), rfl, rfl⟩
      simp only [Transfer.step, hall.hexdigest]
      rfl

end

/-- What a transfer came to: it touches its staging file only. -/
inductive Ended (u : Uuid) (maxBytes : Int) (body : Body) (fs : Volume) :
    Except Raised StoredBlob → Volume → Prop
  | stored {fs' : Volume} :
      body.cut = false → Fits maxBytes body.chunks → fs.Rewrites (.staging u) (some body.bytes) fs' →
      Ended u maxBytes body fs (.ok (measure body.bytes)) fs'
  | disconnected {fs' : Volume} :
      body.cut = true → Fits maxBytes body.chunks → fs.Rewrites (.staging u) (some body.bytes) fs' →
      Ended u maxBytes body fs (.error .clientDisconnect) fs'
  | dropped {fs' : Volume} :
      ¬ Fits maxBytes body.chunks → fs.Rewrites (.staging u) none fs' →
      Ended u maxBytes body fs (.error (tooLarge maxBytes)) fs'

theorem At.ended {r : Except Raised StoredBlob} (h : At u maxBytes cut fs₀ chunks t) (hr : t.pc = .done r) :
    Ended u maxBytes ⟨chunks, cut⟩ fs₀ r t.volume := by
  cases h with
  | returned hcut hfits hothers =>
    cases hr
    exact .stored hcut hfits hothers
  | disconnected hcut hfits hothers =>
    cases hr
    exact .disconnected hcut hfits hothers
  | dropped hover hothers =>
    cases hr
    exact .dropped hover.not_fits hothers
  | opening => cases hr
  | reading => cases hr
  | writing => cases hr
  | syncing => cases hr
  | refused => cases hr

/-- The chunk that was refused is the last it asked for. -/
theorem At.stopped (h : At u maxBytes false fs₀ chunks t) {e : Raised} (hr : t.pc = .done (.error e)) :
    ∃ before chunk, Overflows maxBytes chunks before chunk t.rest ∧ t.taken = before ++ [chunk] := by
  cases h with
  | dropped hover _ => exact ⟨_, _, hover, rfl⟩
  | disconnected hcut => cases hcut
  | returned => cases hr
  | opening => cases hr
  | reading => cases hr
  | writing => cases hr
  | syncing => cases hr
  | refused => cases hr

/-- Only what fits is written. -/
theorem At.bounded {bs : Bytes} (h : At u maxBytes cut fs₀ chunks t) (hopened : t.pc ≠ .opening)
    (hread : t.volume.read (.staging u) = some bs) : (bs.length : Int) ≤ max maxBytes 0 := by
  have hwritten : ∀ {written : List Bytes}, Fits maxBytes written →
      t.volume.read (.staging u) = some written.flatten → (bs.length : Int) ≤ max maxBytes 0 := by
    intro written hfits hfile
    rw [hread] at hfile
    rw [Option.some.inj hfile]
    exact hfits.bounded
  cases h with
  | opening => exact absurd rfl hopened
  | reading _ hfits hfile => exact hwritten hfits hfile.others.at
  | writing _ hfits hfile => exact hwritten (hfits.earlier (List.prefix_append _ _)) hfile.others.at
  | syncing _ hfits hothers => exact hwritten hfits hothers.at
  | refused hover hothers => exact hwritten (hover.first _ List.prefix_rfl) hothers.at
  | dropped _ hothers =>
    rw [hothers.at] at hread
    cases hread
  | disconnected _ hfits hothers => exact hwritten hfits hothers.at
  | returned _ hfits hothers => exact hwritten hfits hothers.at

theorem stage_ended {D : Type} (d : D) (fs : Volume) (u : Uuid) (body : Body) (maxBytes : Int) :
    ∃ r fs', (stage u body maxBytes).exec d fs = (r, d, fs') ∧ Ended u maxBytes body fs r fs' := by
  obtain ⟨r, t, hsteps, hdone, hx⟩ := stage_steps d u body maxBytes fs
  exact ⟨r, t.volume, hx, (at_steps hsteps).ended hdone⟩

/-- A transfer leaves no more in its staging file than its reservation allowed;
a complete one leaves the body. -/
theorem stage_spec {D : Type} (d : D) (fs : Volume) (u : Uuid) (body : Body) (h0 : 0 ≤ maxBytes) :
    ∃ r fs' o, (stage u body maxBytes).exec d fs = (r, d, fs') ∧
      fs.Rewrites (.staging u) o fs' ∧ (∀ bs, o = some bs → (bs.length : Int) ≤ maxBytes) ∧
      ∀ blob, r = .ok blob → o = some body.bytes ∧ blob = measure body.bytes ∧ body.cut = false := by
  have hlength : ∀ bs, Fits maxBytes body.chunks → some body.bytes = some bs →
      (bs.length : Int) ≤ maxBytes := by
    intro bs hfits hbytes
    rw [← Option.some.inj hbytes, ← max_eq_left h0]
    exact hfits.bounded
  obtain ⟨r, fs', hx, hended⟩ := stage_ended d fs u body maxBytes
  cases hended with
  | stored hcut hfits hothers =>
    refine ⟨_, fs', _, hx, hothers, fun bs => hlength bs hfits, fun blob h => ?_⟩
    exact ⟨rfl, (Except.ok.inj h).symm, hcut⟩
  | disconnected _ hfits hothers =>
    exact ⟨_, fs', _, hx, hothers, fun bs => hlength bs hfits, fun blob h => by cases h⟩
  | dropped _ hothers =>
    exact ⟨_, fs', none, hx, hothers, fun bs h => (by cases h), fun blob h => (by cases h)⟩

/-- A whole body within the cap is taken. -/
theorem stage_whole {D : Type} (d : D) (fs : Volume) (u : Uuid) {body : Body} (hcut : body.cut = false)
    (hlen : (body.bytes.length : Int) ≤ maxBytes) :
    ∃ fs', (stage u body maxBytes).exec d fs = (.ok (measure body.bytes), d, fs') := by
  obtain ⟨r, fs', hx, hended⟩ := stage_ended d fs u body maxBytes
  cases hended with
  | stored => exact ⟨fs', hx⟩
  | disconnected hgone =>
    rw [hcut] at hgone
    cases hgone
  | dropped hover => exact absurd (.inr hlen) hover

/-- What the cap is for: what `stage` returns and leaves, how far it asks its
iterator, and what it has written at any await. -/
structure ExactCap {D : Type} (d : D) (u : Uuid) (chunks : List Bytes) (maxBytes : Int) (fs : Volume) :
    Prop where
  returns : (∃ blob, ((stage u ⟨chunks, false⟩ maxBytes).exec d fs).1 = .ok blob) ↔ Fits maxBytes chunks
  stored : ∀ blob d' fs', (stage u ⟨chunks, false⟩ maxBytes).exec d fs = (.ok blob, d', fs') →
    fs'.read (.staging u) = some chunks.flatten ∧ blob = ⟨sha256 chunks.flatten, total chunks⟩
  raised : ∀ e d' fs', (stage u ⟨chunks, false⟩ maxBytes).exec d fs = (.error e, d', fs') →
    e = tooLarge maxBytes ∧ fs'.read (.staging u) = none
  taken : ∃ t, Transfer.Steps u maxBytes false (.start fs chunks) t ∧
    t.pc = .done ((stage u ⟨chunks, false⟩ maxBytes).exec d fs).1 ∧
    t.volume = ((stage u ⟨chunks, false⟩ maxBytes).exec d fs).2.2
  stops : ∀ t e, Transfer.Steps u maxBytes false (.start fs chunks) t → t.pc = .done (.error e) →
    ∃ before chunk, Overflows maxBytes chunks before chunk t.rest ∧ t.taken = before ++ [chunk]
  bounded : ∀ t bs, Transfer.Steps u maxBytes false (.start fs chunks) t → t.pc ≠ .opening →
    t.volume.read (.staging u) = some bs → (bs.length : Int) ≤ max maxBytes 0

/-- **The cap is exact**, whatever the chunks, the cap and the file there was. -/
theorem exact_cap {D : Type} (d : D) (u : Uuid) (chunks : List Bytes) (maxBytes : Int) (fs : Volume) :
    ExactCap d u chunks maxBytes fs := by
  obtain ⟨r, t, hsteps, hdone, hx⟩ := stage_steps d u ⟨chunks, false⟩ maxBytes fs
  have hended := (at_steps hsteps).ended hdone
  refine ⟨?_, ?_, ?_, ⟨t, hsteps, by rw [hx, hdone], by rw [hx]⟩, ?_, ?_⟩
  · rw [hx]
    constructor
    · rintro ⟨blob, rfl⟩
      cases hended with
      | stored _ hfits => exact hfits
    · intro hfits
      cases hended with
      | stored => exact ⟨_, rfl⟩
      | disconnected hcut => cases hcut
      | dropped hover => exact absurd hfits hover
  · intro blob d' fs' h
    rw [hx] at h
    cases h
    cases hended with
    | stored _ _ hothers => exact ⟨hothers.at, rfl⟩
  · intro e d' fs' h
    rw [hx] at h
    cases h
    cases hended with
    | disconnected hcut => cases hcut
    | dropped _ hothers => exact ⟨rfl, hothers.at⟩
  · exact fun t' e hsteps' hpc => (at_steps hsteps').stopped hpc
  · exact fun t' bs hsteps' hopened hread => (at_steps hsteps').bounded hopened hread

/-- Without a chunk there is no comparison: not for every cap does a transfer
return just when the stream is within it. -/
theorem not_within : ¬ ∀ (u : Uuid) (chunks : List Bytes) (maxBytes : Int) (fs : Volume),
    (∃ blob, ((stage u ⟨chunks, false⟩ maxBytes).exec () fs).1 = .ok blob) ↔
      (total chunks : Int) ≤ maxBytes := by
  intro h
  have hreturns : ((stage 1 ⟨[], false⟩ (-1)).exec () (.empty Path)).1 = .ok (measure []) := rfl
  exact absurd ((h 1 [] (-1) (.empty Path)).mp ⟨_, hreturns⟩) (by decide)

end SpikeHub.L2
