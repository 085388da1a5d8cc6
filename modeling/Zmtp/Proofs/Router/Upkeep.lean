import Zmtp.Proofs.Router.Dispatch
import Zmtp.Proofs.Router.Envelopes

namespace Zmtp

open Function (update)

namespace Intake

variable {v v' : Intake} {p q : PipeId} {e : LinkEnd} {o : Identified} {m : RouterMove}
  {i : Identity} {last : Option (PipeId × Part)} {part : Part}

theorem Identifies.name_settle (h : v.Consistent) (ha : v.anonymous q = some .pending)
    (hi : v.Identifies q e o v') (hn : v.name p = some i) : (v'.settle q o).name p = some i := by
  cases hi with
  | dry => exact hn
  | rejected => exact hn
  | known j hi hf =>
    have hne : p ≠ q := by
      rintro rfl
      rw [h.apart p (by rw [ha]; rfl)] at hn
      cases hn
    exact (Function.update_of_ne hne ..).trans hn

theorem Identifies.anonymous_settle (hi : v.Identifies q e o v') (hne : p ≠ q) :
    (v'.settle q o).anonymous p = v.anonymous p := by
  rw [← hi.anonymous_eq]
  cases o <;> exact Function.update_of_ne hne ..

theorem Fetches.frame {o : Option (PipeId × Part)} (h : v.Fetches o v') :
    v'.name = v.name ∧ v'.anonymous = v.anonymous ∧ v'.prefetchedName = v.prefetchedName ∧
      v'.prefetchedPart = v.prefetchedPart := by
  cases h <;> exact ⟨rfl, rfl, rfl, rfl⟩

theorem Receives.frame {o : Option Part} (h : v.Receives o v') :
    v'.name = v.name ∧ v'.anonymous = v.anonymous := by
  cases h with
  | name => exact ⟨rfl, rfl⟩
  | held => exact ⟨rfl, rfl⟩
  | dry _ _ hf => exact ⟨hf.frame.1, hf.frame.2.1⟩
  | inside _ _ hf => exact ⟨hf.frame.1, hf.frame.2.1⟩
  | first _ _ hf => exact ⟨hf.frame.1, hf.frame.2.1⟩

theorem Asks.frame {b : Bool} (h : v.Asks b v') :
    v'.name = v.name ∧ v'.anonymous = v.anonymous := by
  cases h with
  | known => exact ⟨rfl, rfl⟩
  | dry _ _ _ hf => exact ⟨hf.frame.1, hf.frame.2.1⟩
  | first _ _ _ hf => exact ⟨hf.frame.1, hf.frame.2.1⟩

theorem Plays.name_eq (hp : v.Plays m v') (h : v.Consistent) (hn : v.name p = some i)
    (hd : m ≠ .detach p) : v'.name p = some i := by
  cases hp with
  | attach hf hi => exact hi.name_settle (h.arrive hf _) (Function.update_self ..) hn
  | detach q =>
    have hne : p ≠ q := fun he => hd (he ▸ rfl)
    rw [h.depart_eq]
    exact (Function.update_of_ne hne ..).trans hn
  | identify ha he hi => exact hi.name_settle h ha hn
  | ask ha => rw [ha.frame.1, hn]
  | receive hr => rw [hr.frame.1, hn]
  | activate | ignore | writable | send | rollback | mandate | far | away => exact hn

theorem Plays.rejected (hp : v.Plays m v') (h : v.Consistent)
    (ha : v.anonymous p = some .rejected) (hd : m ≠ .detach p) :
    v'.anonymous p = some .rejected := by
  cases hp with
  | @attach l o w hf hi =>
    have hne : p ≠ l.left.id := by
      rintro rfl
      rw [(h.detached hf).1] at ha
      cases ha
    rw [hi.anonymous_settle hne]
    exact (Function.update_of_ne hne ..).trans ha
  | detach q =>
    have hne : p ≠ q := fun he => hd (he ▸ rfl)
    rw [h.depart_eq]
    exact (Function.update_of_ne hne ..).trans ha
  | @identify q e o w hq he hi =>
    have hne : p ≠ q := by
      rintro rfl
      cases ha.symm.trans hq
    rw [hi.anonymous_settle hne, ha]
  | ask hr => rw [hr.frame.2, ha]
  | receive hr => rw [hr.frame.2, ha]
  | activate | ignore | writable | send | rollback | mandate | far | away => exact ha

/-- What is known of the part that was taken last. A part that waits is that one, and so is the one
that the current message goes on behind. -/
structure Recalls (v : Intake) (last : Option (PipeId × Part)) : Prop where
  named : v.prefetchedName.isSome → v.prefetchedPart.isSome
  held : ∀ part, v.prefetchedPart = some part → ∃ p, last = some (p, part) ∧
    v.source = some p ∧ v.queue.midMessage = (if part.hasMore then some p else none) ∧
      ∀ name, v.prefetchedName = some name → ∃ i, v.name p = some i ∧ name = i.toPart
  midway : v.moreIn = true → v.prefetchedPart = none → ∃ p part, last = some (p, part) ∧
    part.hasMore = true ∧ v.source = some p ∧ v.queue.midMessage = some p

theorem Recalls.mono (h : v.Recalls last) (hs : v'.source = v.source)
    (hm : v'.moreIn = v.moreIn) (hn : v'.prefetchedName = v.prefetchedName)
    (hp : v'.prefetchedPart = v.prefetchedPart)
    (hq : v'.queue.midMessage = v.queue.midMessage)
    (hname : ∀ p i, v.source = some p → v.name p = some i → v'.name p = some i) :
    v'.Recalls last := by
  constructor
  · rw [hn, hp]
    exact h.named
  · intro part hpart
    rw [hp] at hpart
    obtain ⟨p, hlast, hsource, hmid, hnamed⟩ := h.held part hpart
    refine ⟨p, hlast, hs.trans hsource, hq.trans hmid, ?_⟩
    intro name he
    rw [hn] at he
    obtain ⟨i, hi, hpi⟩ := hnamed name he
    exact ⟨i, hname p i hsource hi, hpi⟩
  · intro hmore hpart
    rw [hm] at hmore
    rw [hp] at hpart
    obtain ⟨p, part, hlast, hpm, hsource, hmid⟩ := h.midway hmore hpart
    exact ⟨p, part, hlast, hpm, hs.trans hsource, hq.trans hmid⟩

theorem Recalls.depart (h : v.Recalls last) (hc : v.Consistent) (q : PipeId) :
    (v.depart q).Recalls last := by
  have hmem : ∀ c, v.queue.midMessage = some c → c ∈ v.queue.members := fun c hm =>
    (hc.queued c).2 (hc.sourced c (hc.midway c hm))
  rw [hc.depart_eq]
  by_cases hs : v.source = some q
  · rw [abandon, if_pos hs]
    constructor
    · intro hn
      cases hn
    · intro part hpart
      cases hpart
    · intro hm
      cases hm
  · rw [abandon, if_neg hs]
    refine h.mono rfl rfl rfl rfl ?_ ?_
    · have hmid : v.queue.midMessage ≠ some q := fun hm => hs (hc.midway q hm)
      rw [FairQueue.midMessage_remove hmem, if_neg hmid]
    · intro p i hp hn
      have hne : p ≠ q := fun he => hs (he ▸ hp)
      exact (Function.update_of_ne hne ..).trans hn

theorem Identifies.frame_settle (hi : v.Identifies q e o v') :
    (v'.settle q o).source = v.source ∧ (v'.settle q o).moreIn = v.moreIn ∧
      (v'.settle q o).prefetchedName = v.prefetchedName ∧
        (v'.settle q o).prefetchedPart = v.prefetchedPart ∧
          (v'.settle q o).queue.midMessage = v.queue.midMessage := by
  cases hi <;> exact ⟨rfl, rfl, rfl, rfl, rfl⟩

theorem Recalls.plays (h : v.Recalls last) (hc : v.Consistent) (hp : v.Plays m v')
    (ha : m ≠ .ask) (hr : m ≠ .receive) : v'.Recalls last := by
  have hname (hd : ∀ p, m ≠ .detach p) (p : PipeId) (i : Identity) (_ : v.source = some p)
      (hn : v.name p = some i) : v'.name p = some i := hp.name_eq hc hn (hd p)
  cases hp with
  | attach hf hi =>
    obtain ⟨hs, hm, hn, hpart, hq⟩ := hi.frame_settle
    exact h.mono hs hm hn hpart hq (hname nofun)
  | detach q => exact h.depart hc q
  | @activate q _ =>
    exact h.mono rfl rfl rfl rfl (FairQueue.midMessage_activate ..) (hname nofun)
  | identify hq he hi =>
    obtain ⟨hs, hm, hn, hpart, hq⟩ := hi.frame_settle
    exact h.mono hs hm hn hpart hq (hname nofun)
  | ask => exact absurd rfl ha
  | receive => exact absurd rfl hr
  | far => exact h.mono rfl rfl rfl rfl rfl (hname nofun)
  | ignore | writable | send | rollback | mandate | away => exact h

theorem Fetches.source_of_some (h : v.Fetches (some (p, part)) v') :
    v'.source = some p ∧
      v'.queue.midMessage = if part.hasMore then some p else none := by
  cases h
  exact ⟨rfl, FairQueue.midMessage_served ..⟩

theorem Recalls.fetch_none (h : v.Recalls last) (hf : v.Fetches none v') : v'.Recalls last := by
  cases hf with
  | dry hq hc => exact h.mono rfl rfl rfl rfl hq.midMessage fun _ _ _ hn => hn

theorem recalls_passed (hn : v.prefetchedName = none) (hpart : v.prefetchedPart = none)
    (hs : v.source = some p)
    (hq : v.queue.midMessage = if part.hasMore then some p else none)
    (hm : v.moreIn = part.hasMore) : v.Recalls (some (p, part)) where
  named h := by
    rw [hn] at h
    cases h
  held x h := by cases hpart.symm.trans h
  midway h _ := by
    rw [hm] at h
    rw [if_pos h] at hq
    exact ⟨p, part, rfl, h, hs, hq⟩

theorem recalls_held (hpart : v.prefetchedPart = some part) (hs : v.source = some p)
    (hq : v.queue.midMessage = if part.hasMore then some p else none)
    (hn : ∀ x, v.prefetchedName = some x → ∃ i, v.name p = some i ∧ x = i.toPart) :
    v.Recalls (some (p, part)) where
  named _ := Option.isSome_of_eq_some hpart
  held x h := by
    cases hpart.symm.trans h
    exact ⟨p, rfl, hs, hq, hn⟩
  midway _ h := by cases hpart.symm.trans h

end Intake

namespace Dispatch

variable {v : Dispatch} {part : Part} {t : PipeId}

theorem target_clear (v : Dispatch) : v.clear.target = none := by
  rw [clear]
  split
  · next h => exact h
  · rfl

/-- A message that goes on keeps its target or loses it, and a message that ends loses it. -/
theorem target_carry (h : (v.carry part).target = some t) :
    v.target = some t ∧ (v.carry part).moreOut = true := by
  rw [carry] at h ⊢
  cases ht : v.target with
  | none =>
    rw [ht] at h
    cases h
  | some t' =>
    simp only [ht] at h ⊢
    cases ho : v.outlet t' with
    | none =>
      rw [ho] at h
      cases h
    | some o =>
      simp only [ho] at h ⊢
      split at h
      · split at h
        · next ha hm => exact ⟨h, by rw [if_pos ha, if_pos hm, hm]⟩
        · cases h
      · rw [target_clear] at h
        cases h

end Dispatch

namespace Router

variable {r : Router} {last : Option (PipeId × Part)}

/-- The part that a move takes from a pipe to pass it on. -/
def takes (r : Router) : RouterMove → Option (PipeId × Part)
  | .ask =>
    if r.moreIn || r.prefetchedName.isSome || r.prefetchedPart.isSome then none else r.fetch.1
  | .receive => if r.prefetchedName.isSome || r.prefetchedPart.isSome then none else r.fetch.1
  | _ => none

theorem recalls_receive (h : r.intake.Recalls last) :
    r.receive.2.intake.Recalls ((r.takes .receive).or last) := by
  rw [receive, takes]
  cases hn : r.prefetchedName with
  | some name =>
    obtain ⟨part, hpart⟩ := Option.isSome_iff_exists.1 (h.named (Option.isSome_of_eq_some hn))
    obtain ⟨p, rfl, hs, hq, -⟩ := h.held part hpart
    refine Intake.recalls_held hpart hs hq ?_
    intro x hx
    cases hx
  | none =>
    cases hpart : r.prefetchedPart with
    | some part =>
      obtain ⟨p, rfl, hs, hq, -⟩ := h.held part hpart
      exact Intake.recalls_passed rfl rfl hs hq rfl
    | none =>
      have hf := r.intake_fetch
      simp only [Option.isSome_none, Bool.or_self, Bool.false_eq_true, if_false]
      cases ho : r.fetch with
      | mk o r' =>
        rw [ho] at hf
        cases o with
        | none => exact h.fetch_none hf
        | some d =>
          obtain ⟨p, part⟩ := d
          obtain ⟨hs, hq⟩ := hf.source_of_some
          obtain ⟨-, -, hn', hpart'⟩ := hf.frame
          obtain ⟨e, he⟩ := hf.front
          have hname : r'.name? p = some e.identity.toPart := by rw [name?_eq, he]; rfl
          have hnone : r'.intake.prefetchedName = none := hn'.trans hn
          cases hm : r'.moreIn with
          | true =>
            simp only [hm, if_true]
            exact Intake.recalls_passed hnone (hpart'.trans hpart) hs hq rfl
          | false =>
            simp only [hm, hname]
            refine Intake.recalls_held rfl hs hq ?_
            intro x hx
            cases hnone.symm.trans hx

theorem recalls_hasInput (hc : r.intake.Consistent) (h : r.intake.Recalls last) :
    r.hasInput.2.intake.Recalls ((r.takes .ask).or last) := by
  rw [hasInput, takes]
  split
  · exact h
  · have hf := r.intake_fetch
    cases ho : r.fetch with
    | mk o r' =>
      rw [ho] at hf
      cases o with
      | none => exact h.fetch_none hf
      | some d =>
        obtain ⟨p, part⟩ := d
        obtain ⟨hs, hq⟩ := hf.source_of_some
        obtain ⟨e, he⟩ := hf.front
        have hname : r'.name? p = some e.identity.toPart := by rw [name?_eq, he]; rfl
        have hc' := hc.fetch hf
        obtain ⟨i, hi⟩ := Option.isSome_iff_exists.1 (hc'.sourced p hs)
        simp only [hname]
        refine Intake.recalls_held rfl hs hq ?_
        intro x hx
        cases hx
        exact ⟨i, hi, congrArg Identity.toPart (hc'.labelled p e i he hi)⟩

theorem recalls_play {m : RouterMove} (hm : r.Admits m) (hc : r.intake.Consistent)
    (h : r.intake.Recalls last) : (r.play m).intake.Recalls ((r.takes m).or last) := by
  cases m with
  | ask => exact recalls_hasInput hc h
  | receive => exact recalls_receive h
  | _ => exact h.plays hc (intake_play hc hm) nofun nofun

/-- A message begins with a target only if its first part names that peer. -/
theorem target_address {part : Part} {r' : Router} {t : PipeId} (ha : r.address part = .ok r')
    (hnone : r.target = none) (ht : r'.target = some t) :
    r'.moreOut = true ∧ r.addressee? ⟨part.data⟩ = some t := by
  have hd := dispatch_address ha
  have htarget := (congrArg Dispatch.target hd).symm.trans ht
  have hmore := congrArg Dispatch.moreOut hd
  split at htarget
  · next hm =>
    rw [if_pos hm] at hmore
    refine ⟨hmore, ?_⟩
    simp only at htarget
    split at htarget
    · exact htarget
    · cases hnone.symm.trans htarget
  · cases hnone.symm.trans htarget

/-- Parts are staged for a peer that is known, and only in the middle of a message. -/
def TargetKnown (r : Router) : Prop :=
  ∀ t, r.target = some t → r.moreOut = true ∧ (r.identity? t).isSome

theorem TargetKnown.congr {r' : Router} (h : r.TargetKnown)
    (hname : ∀ t, (r.identity? t).isSome → (r'.identity? t).isSome)
    (ht : r'.target = r.target) (hmore : r'.moreOut = r.moreOut) : r'.TargetKnown := by
  intro t htarget
  obtain ⟨h1, h2⟩ := h t (ht ▸ htarget)
  exact ⟨hmore.trans h1, hname t h2⟩

theorem TargetKnown.detach (h : r.TargetKnown) (hc : r.intake.Consistent) (p : PipeId) :
    (r.play (.detach p)).TargetKnown := by
  have hd := r.dispatch_detach p
  have htarget : (r.play (.detach p)).target = if r.target = some p then none else r.target :=
    congrArg Dispatch.target hd
  intro t ht
  rw [htarget] at ht
  split at ht
  · cases ht
  · next hne =>
    obtain ⟨hmore, hknown⟩ := h t ht
    obtain ⟨i, hi⟩ := Option.isSome_iff_exists.1 hknown
    have hdetach : RouterMove.detach p ≠ .detach t := by
      intro he
      cases he
      exact hne ht
    have hplay := intake_play (m := .detach p) hc trivial
    exact ⟨(congrArg Dispatch.moreOut hd).trans hmore,
      Option.isSome_of_eq_some (hplay.name_eq hc hi hdetach)⟩

theorem TargetKnown.send (h : r.TargetKnown) (hc : r.intake.Consistent) {part : Part}
    (hname : ∀ t, (r.identity? t).isSome → ((r.play (.send part)).identity? t).isSome) :
    (r.play (.send part)).TargetKnown := by
  intro t ht
  have hknown := hname t
  rw [play, Router.send] at ht hknown ⊢
  cases hmore : r.moreOut with
  | true =>
    have hd := r.dispatch_sendPart part
    simp only [hmore, if_true] at ht hknown ⊢
    obtain ⟨ht', hmore'⟩ :=
      Dispatch.target_carry (hd ▸ ht : (r.dispatch.carry part).target = some t)
    exact ⟨(congrArg Dispatch.moreOut hd).trans hmore', hknown (h t ht').2⟩
  | false =>
    have hnone : r.target = none := by
      cases htarget : r.target with
      | none => rfl
      | some t' =>
        have ht' := (h t' htarget).1
        rw [hmore] at ht'
        cases ht'
    simp only [hmore, Bool.false_eq_true, if_false] at ht ⊢
    cases ha : r.address part with
    | error fault =>
      rw [ha] at ht
      cases hnone.symm.trans ht
    | ok r' =>
      rw [ha] at ht
      obtain ⟨hmore', howner⟩ := target_address ha hnone ht
      have hi : r.intake.name t = some ⟨part.data⟩ := (hc.inverse ..).2 howner
      rw [← intake_address ha] at hi
      exact ⟨hmore', Option.isSome_of_eq_some hi⟩

theorem targetKnown_play {m : RouterMove} (hm : r.Admits m) (hc : r.intake.Consistent)
    (h : r.TargetKnown) : (r.play m).TargetKnown := by
  by_cases hdetach : ∃ p, m = .detach p
  · obtain ⟨p, rfl⟩ := hdetach
    exact h.detach hc p
  · have hname (t : PipeId) (ht : (r.identity? t).isSome) :
        ((r.play m).identity? t).isSome := by
      obtain ⟨i, hi⟩ := Option.isSome_iff_exists.1 ht
      exact Option.isSome_of_eq_some
        ((intake_play hc hm).name_eq hc hi fun he => hdetach ⟨t, he⟩)
    cases m with
    | attach l =>
      have hd := r.dispatch_attach l
      exact h.congr hname (congrArg Dispatch.target hd) (congrArg Dispatch.moreOut hd)
    | detach p => exact absurd ⟨p, rfl⟩ hdetach
    | readable p =>
      have hd := aside_dispatch.onReadable r p
      exact h.congr hname (congrArg Dispatch.target hd) (congrArg Dispatch.moreOut hd)
    | send part => exact h.send hc hname
    | rollback =>
      have hd := r.dispatch_rollback
      intro t ht
      rw [play, show r.rollback.target = none from (congrArg Dispatch.target hd).trans
        (Dispatch.target_clear _)] at ht
      cases ht
    | ask =>
      have hd := aside_dispatch.hasInput r
      exact h.congr hname (congrArg Dispatch.target hd) (congrArg Dispatch.moreOut hd)
    | receive =>
      have hd := aside_dispatch.receive r
      exact h.congr hname (congrArg Dispatch.target hd) (congrArg Dispatch.moreOut hd)
    | writable | mandate | far => exact h.congr hname rfl rfl

instance (r : Router) : DecidablePred r.Admits
  | .attach l => inferInstanceAs (Decidable (r.intake.front l.left.id = none))
  | .detach _ | .readable _ | .writable _ | .send _ | .rollback | .mandate _ | .ask | .receive
  | .far _ _ => isTrue trivial

end Router

/-- A router, and the part that it took last from a pipe to pass it on. -/
structure Upkeep where
  router : Router
  last : Option (PipeId × Part)

namespace Upkeep

def new (s : Settings) (ids : IdentitySource) : Upkeep := ⟨.new s ids, none⟩

def play (w : Upkeep) (m : RouterMove) : Upkeep :=
  ⟨w.router.play m, (w.router.takes m).or w.last⟩

def run (w : Upkeep) (ms : List RouterMove) : Upkeep := ms.foldl play w

def Admitted : Upkeep → List RouterMove → Prop
  | _, [] => True
  | w, m :: ms => w.router.Admits m ∧ Admitted (w.play m) ms

instance decidableAdmitted : ∀ w ms, Decidable (Admitted w ms)
  | _, [] => isTrue trivial
  | w, m :: ms =>
    have := decidableAdmitted (w.play m) ms
    inferInstanceAs (Decidable (w.router.Admits m ∧ Admitted (w.play m) ms))

/-- What the collections and flags of a router say of each other. -/
structure WellKept (w : Upkeep) : Prop where
  /-- The attached pipes are the anonymous ones and those of the table. -/
  attached : ∀ p, (w.router.link? p).isSome ↔
    w.router.isAnonymous p = true ∨ (w.router.identity? p).isSome
  apart : ∀ p, w.router.isAnonymous p = true → w.router.identity? p = none
  /-- The queue serves the pipes of the table, each once. -/
  nodup : w.router.queue.members.Nodup
  queued : ∀ p, p ∈ w.router.queue.members ↔ (w.router.identity? p).isSome
  /-- A peer is found by its identity if and only if the identity is found by its pipe. -/
  inverse : ∀ p i, w.router.identity? p = some i ↔ w.router.addressee? i = some p
  unique : ∀ p q i, w.router.identity? p = some i → w.router.identity? q = some i → p = q
  labelled : ∀ p l i, w.router.link? p = some l → w.router.identity? p = some i →
    l.left.identity = i
  targeted : ∀ t, w.router.target = some t →
    w.router.moreOut = true ∧ (w.router.identity? t).isSome
  /-- A part that was taken early came from the source, and the name before it is that of its peer.
  -/
  held : ∀ part, w.router.prefetchedPart = some part → ∃ p l, w.last = some (p, part) ∧
    w.router.source = some p ∧ w.router.link? p = some l ∧
      ∀ name, w.router.prefetchedName = some name → name = l.left.identity.toPart
  named : w.router.prefetchedName.isSome → w.router.prefetchedPart.isSome
  midway : w.router.moreIn = true → w.router.prefetchedName = none →
    w.router.prefetchedPart = none → ∃ p part, w.last = some (p, part) ∧ part.hasMore = true ∧
      w.router.source = some p ∧ w.router.queue.midMessage = some p
  /-- No message begins while another has a target. -/
  idle : w.router.moreOut = false → w.router.target = none
  /-- The pipes that the queue asks are there, and so is the one that a part was taken from. -/
  served : ∀ p ∈ w.router.queue.members, (w.router.link? p).isSome
  fetched : ∀ p part, w.router.fetch.1 = some (p, part) → (w.router.fetch.2.name? p).isSome

/-- What every move keeps. -/
structure Holds (w : Upkeep) : Prop where
  consistent : w.router.intake.Consistent
  recalls : w.router.intake.Recalls w.last
  target : w.router.TargetKnown

variable {w : Upkeep} {m : RouterMove} {p : PipeId}

theorem holds_new (s : Settings) (ids : IdentitySource) : (new s ids).Holds where
  consistent := Router.consistent_new s ids
  recalls := ⟨nofun, nofun, nofun⟩
  target := nofun

theorem Holds.play (h : w.Holds) (ha : w.router.Admits m) : (w.play m).Holds where
  consistent := Router.consistent_play h.consistent ha
  recalls := Router.recalls_play ha h.consistent h.recalls
  target := Router.targetKnown_play ha h.consistent h.target

theorem Holds.run {ms : List RouterMove} (h : w.Holds) (ha : Admitted w ms) :
    (w.run ms).Holds := by
  induction ms generalizing w with
  | nil => exact h
  | cons m ms ih => exact ih (h.play ha.1) ha.2

theorem Holds.rejected_run {ms : List RouterMove} (h : w.Holds) (ha : Admitted w ms)
    (hp : w.router.anonymous.get? p = some .rejected) (hd : .detach p ∉ ms) :
    (w.run ms).router.anonymous.get? p = some .rejected := by
  induction ms generalizing w with
  | nil => exact hp
  | cons m ms ih =>
    rw [List.mem_cons, not_or] at hd
    apply ih (h.play ha.1) ha.2 ?_ hd.2
    exact (Router.intake_play h.consistent ha.1).rejected h.consistent hp (Ne.symm hd.1)

theorem Holds.wellKept (h : w.Holds) : w.WellKept where
  attached p := by
    have hc := h.consistent.attached p
    rwa [show w.router.intake.front p = (w.router.link? p).map Link.front from rfl,
      Option.isSome_map] at hc
  apart := h.consistent.apart
  nodup := h.consistent.queue.nodup
  queued := h.consistent.queued
  inverse := h.consistent.inverse
  unique p q i hp hq := by
    have hi := (h.consistent.inverse p i).1 hp
    rw [(h.consistent.inverse q i).1 hq] at hi
    exact (Option.some.inj hi).symm
  labelled p l i hl hi :=
    h.consistent.labelled p l.front i (congrArg (Option.map Link.front) hl) hi
  targeted := h.target
  held part hpart := by
    obtain ⟨p, hlast, hs, -, hname⟩ := h.recalls.held part hpart
    obtain ⟨e, he⟩ := h.consistent.front_of_name (h.consistent.sourced p hs)
    obtain ⟨l, hl, rfl⟩ := Option.map_eq_some_iff.1 he
    refine ⟨p, l, hlast, hs, hl, ?_⟩
    intro name hn
    obtain ⟨i, hi, hpart⟩ := hname name hn
    rw [hpart, ← h.consistent.labelled p l.front i he hi]
    rfl
  named := h.recalls.named
  midway hm _ hpart := h.recalls.midway hm hpart
  idle hm := by
    cases ht : w.router.target with
    | none => rfl
    | some t => cases hm.symm.trans (h.target t ht).1
  served p hp := by
    obtain ⟨e, he⟩ := h.consistent.front_of_name ((h.consistent.queued p).1 hp)
    obtain ⟨l, hl, -⟩ := Option.map_eq_some_iff.1 he
    exact Option.isSome_of_eq_some hl
  fetched p part ho := by
    have hf := w.router.intake_fetch
    rw [ho] at hf
    obtain ⟨e, he⟩ := hf.front
    rw [Router.name?_eq, he]
    rfl

/-- Whatever is asked of a router and whatever the far ends of its links do, its collections and
flags agree. A pipe that was rejected is never asked again and stays until it is detached. -/
theorem wellKept_run (s : Settings) (ids : IdentitySource) (ms : List RouterMove)
    (ha : Admitted (new s ids) ms) :
    ((new s ids).run ms).WellKept ∧
      ∀ more, Admitted ((new s ids).run ms) more → ∀ p,
        ((new s ids).run ms).router.anonymous.get? p = some .rejected → .detach p ∉ more →
          (((new s ids).run ms).run more).router.anonymous.get? p = some .rejected := by
  have h : ((new s ids).run ms).Holds := (holds_new s ids).run ha
  refine ⟨h.wellKept, ?_⟩
  intro more hmore p hp hd
  exact h.rejected_run hmore hp hd

/-- The second of three peers gives the name of the first, and the third gives none. -/
def namesakes : List RouterMove :=
  [.attach (Watch.namedLink 0 [0x41]), .attach (Watch.namedLink 2 [0x41]),
    .attach (Watch.namedLink 4 []), .far ⟨0⟩ (.write (.ofMore [1] true)), .far ⟨0⟩ .flush, .ask,
    .send (.ofMore [0x41] true)]

theorem wellKept_run_namesakes :
    let w := (new .default ⟨7⟩).run namesakes
    w.WellKept ∧ w.last = some (⟨0⟩, .ofMore [1] true) ∧ w.router.target = some ⟨0⟩ ∧
      w.router.anonymous.get? ⟨2⟩ = some .rejected ∧
      w.router.identity? ⟨4⟩ = some ⟨[0, 0, 0, 0, 7]⟩ ∧
      (w.run [.receive, .receive, .readable ⟨2⟩, .detach ⟨0⟩]).router.anonymous.get? ⟨2⟩ =
        some .rejected := by
  intro w
  have hr : w.router.anonymous.get? ⟨2⟩ = some .rejected := by decide +kernel
  obtain ⟨hw, hrejected⟩ := wellKept_run .default ⟨7⟩ namesakes (by decide +kernel)
  exact ⟨hw, by decide +kernel, by decide +kernel, hr, by decide +kernel,
    hrejected _ (by decide +kernel) ⟨2⟩ hr (by simp)⟩

end Upkeep

end Zmtp
