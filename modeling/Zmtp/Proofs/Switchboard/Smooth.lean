import Zmtp.Proofs.Engine.Receiving
import Zmtp.Proofs.Router.Smooth
import Zmtp.Proofs.Switchboard.Standing
import Zmtp.Stream.Script

namespace Zmtp

open Function (update)

namespace Switchboard

variable {τ : Type} {b : Switchboard τ} {p : PipeId}

/-- Only whole messages can be read by the router, and no pipe is found empty in the middle of one. -/
structure Smooth (b : Switchboard τ) : Prop where
  dry : b.router.smooth = true
  whole : ∀ p l, b.router.link? p = some l → Whole l.left.inbox

theorem Holds.smooth (h : b.Holds) : b.Smooth where
  dry := Router.smooth_iff.2 (h.watch.steady.smooth h.watch.consistent)
  whole p l hl := h.watch.steady.whole p l.front (congrArg (Option.map Link.front) hl)

/-- A pipe that displaces another leaves no harm if the first of the ready pipes has something to
read, and only then. -/
theorem Holds.smooth_displaced (h : b.Holds) (hd : b.router.queue.Displaces p) :
    ((b.router.detach p).2.smooth = true ↔
      ∀ q l, b.router.queue.ready.head? = some q → b.router.link? q = some l →
        l.left.inbox ≠ []) := by
  have hc : b.router.intake.Consistent := h.watch.consistent
  have hs : b.router.intake.Steady := h.watch.steady
  rw [Router.smooth_iff, Router.intake_detach, hs.smooth_depart hc hd]
  refine forall_congr' fun q => ?_
  constructor
  · intro hdry l hq hl hi
    apply hdry hq
    intro e he
    cases (congrArg (Option.map Link.front) hl).symm.trans he
    exact hi
  · intro hall hq hdry
    have hm : q ∈ b.router.queue.members := List.mem_append_left _ (List.mem_of_mem_head? hq)
    obtain ⟨e, he⟩ := hc.front_of_name ((hc.queued q).1 hm)
    obtain ⟨l, hl, rfl⟩ := Option.map_eq_some_iff.1 he
    exact hall l hq hl (hdry l.front he)

variable [ByteStream τ]

theorem router_run_receive (b : Switchboard τ) (n : Nat) :
    (b.run (List.replicate n (.own .receive))).router =
      (fun r : Router => r.receive.2)^[n] b.router := by
  induction n generalizing b with
  | zero => rfl
  | succ n ih => exact ih (b.play (.own .receive))

theorem Holds.intake_call (h : b.Holds) {e : Line τ} {l : Link} (he : b.lines p = some e)
    (hl : b.router.link? p = some l) (world : τ → τ) (c : Call) :
    ∃ more, ((b.joined p e world).call c).session.taken = e.session.taken ++ more ∧
      (b.play (.call p world c)).router.intake =
        { b.router.intake with
          front := update b.router.intake.front p
            (some { l.front with inbox := l.front.inbox ++ more }) } := by
  obtain ⟨-, more, htaken, hleft⟩ := h.shows hl he world c
  refine ⟨more, htaken, ?_⟩
  rw [Switchboard.play, he]
  exact (Watch.intake_after (w := b.watch) hl hleft).1

theorem Holds.torn (h : b.Holds) (hk : (b.router.identity? p).isSome) {world : τ → τ} {c : Call}
    (hr : ¬ b.Rounds (.call p world c)) :
    ((b.play (.call p world c)).play (.own (.readable p))).router.intake.Torn p ∧
      ((b.play (.call p world c)).play (.own (.readable p))).router.intake.Consistent := by
  have hc : b.router.intake.Consistent := h.watch.consistent
  obtain ⟨e, he, hr⟩ : ∃ e, b.lines p = some e ∧
      ¬ Whole ((b.joined p e world).call c).session.taken := by
    simpa [Rounds] using hr
  obtain ⟨f, hf⟩ := hc.front_of_name hk
  obtain ⟨l, hl, rfl⟩ := Option.map_eq_some_iff.1 hf
  obtain ⟨more, htaken, hi⟩ := h.intake_call he hl world c
  rw [htaken] at hr
  have hanon : (b.play (.call p world c)).router.intake.anonymous p = none := by
    rw [hi]
    by_contra ha
    have hn : b.router.identity? p = none := hc.apart p (Option.isSome_iff_ne_none.2 ha)
    rw [hn] at hk
    cases hk
  have hread : ((b.play (.call p world c)).play (.own (.readable p))).router.intake =
      { (b.play (.call p world c)).router.intake with
        queue := (b.play (.call p world c)).router.queue.activate p } :=
    Router.intake_onReadable_known hanon
  have hqueue : (b.play (.call p world c)).router.queue = b.router.queue :=
    congrArg Intake.queue hi
  rw [hread, hqueue, hi]
  constructor
  · refine ⟨FairQueue.mem_ready_activate ((hc.queued p).2 hk), _, Function.update_self .., ?_⟩
    exact Whole.not_append (h.whole p e he) hr
  · exact (hc.refill hf _).activate p

/-- After a call that ends in the middle of a message, the pipe is found empty there once the router
has received what it can. -/
theorem Holds.exists_not_smooth (h : b.Holds) (hk : (b.router.identity? p).isSome) {world : τ → τ}
    {c : Call} (hr : ¬ b.Rounds (.call p world c)) :
    ∃ n, ((b.play (.call p world c)).run
      (.own (.readable p) :: List.replicate n (.own .receive))).router.smooth = false := by
  obtain ⟨ht, hc⟩ := h.torn hk hr
  obtain ⟨n, hn⟩ := Router.exists_not_smooth ht hc
  refine ⟨n, ?_⟩
  rw [← router_run_receive] at hn
  exact hn

/-- If no call ends in the middle of a message and no pipe that leaves displaces another, the router
finds no pipe empty in the middle of a message, and can read whole messages only. The first condition
cannot be weakened. Without the second, it depends on the pipe that gets the turn. -/
theorem smooth_run (s : Settings) (ids : IdentitySource) (ms : List (Move τ))
    (hr : Always Rounds (new s ids) ms) (hs : Always Spares (new s ids) ms) :
    ((new s ids).run ms).Smooth ∧
      (∀ p world c, (((new s ids).run ms).router.identity? p).isSome →
        ¬ ((new s ids).run ms).Rounds (.call p world c) →
          ∃ n, ((((new s ids).run ms).play (.call p world c)).run
            (.own (.readable p) :: List.replicate n (.own .receive))).router.smooth = false) ∧
      ∀ p, ((new s ids).run ms).router.queue.Displaces p →
        ((((new s ids).run ms).play (.own (.detach p))).router.smooth = true ↔
          ∀ q l, ((new s ids).run ms).router.queue.ready.head? = some q →
            ((new s ids).run ms).router.link? q = some l → l.left.inbox ≠ []) := by
  have h : ((new s ids).run ms).Holds := (holds_new s ids).run hr hs
  exact ⟨h.smooth, fun p world c hk hr => h.exists_not_smooth hk hr,
    fun p hd => h.smooth_displaced hd⟩

/-- The bytes of a peer, as they arrive: a greeting, a name, a message of two parts, and another one
in two pieces. -/
def halfwayPieces : List Bytes :=
  [[0xff, 0, 0, 0, 0, 0, 0, 0, 1, 0x7f], [1, 5], [0, 1, 0x41], [1, 1, 1, 0, 1, 2], [1, 1, 3],
    [0, 1, 4]]

def halfwayPeer : Script := { Script.empty with input := halfwayPieces.map .data }

/-- The first message is received. -/
def firstMessage : List (Move Script) :=
  [.lay ⟨0⟩ 0 { role := .router } "" true halfwayPeer, .attach ⟨0⟩,
    .call ⟨0⟩ id (.signal .start), .own (.readable ⟨0⟩), .call ⟨0⟩ id (.signal .readable),
    .own (.readable ⟨0⟩), .own .receive, .own .receive, .own .receive]

/-- All that came in one piece is received, and the next piece ends in the middle of a message. -/
theorem smooth_run_halfway :
    ((new .default ⟨7⟩).run firstMessage).Smooth ∧
      ∃ n, ((((new .default ⟨7⟩).run firstMessage).play (.call ⟨0⟩ id (.signal .readable))).run
        (.own (.readable ⟨0⟩) :: List.replicate n (.own .receive))).router.smooth = false := by
  obtain ⟨hsmooth, htorn, -⟩ :=
    smooth_run .default ⟨7⟩ firstMessage (by decide +kernel) (by decide +kernel)
  exact ⟨hsmooth, htorn ⟨0⟩ id (.signal .readable) (by decide +kernel) (by decide +kernel)⟩

/-- The whole stream is well-formed, but its first piece of the second message makes the router find
the pipe empty in the middle of it. -/
theorem not_smooth_halfway :
    Settings.delivered { role := .router } halfwayPieces.flatten =
        [⟨[0x41], .identity⟩, .ofMore [1] true, .ofBytes [2], .ofMore [3] true, .ofBytes [4]] ∧
      Always Spares (new .default ⟨7⟩) (firstMessage ++ [.call ⟨0⟩ id (.signal .readable),
        .own (.readable ⟨0⟩), .own .receive, .own .receive]) ∧
      ¬ ((new .default ⟨7⟩).run (firstMessage ++ [.call ⟨0⟩ id (.signal .readable),
        .own (.readable ⟨0⟩), .own .receive, .own .receive])).Smooth := by
  refine ⟨by decide +kernel, by decide +kernel, ?_⟩
  intro h
  have hdry := h.dry
  revert hdry
  decide +kernel

end Switchboard

end Zmtp
