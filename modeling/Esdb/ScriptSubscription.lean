import Esdb.AscendingLog
import Esdb.ScriptTransaction

/-!
# Subscriptions of the script library

A poll asks its store for the changes after the cursor, in one query, and then
calls the script's handler for one after the other. What the handler does is not
known: it may poll the same subscription again, change the store, close the
subscription or throw. So a poll stops here wherever its handler is called, and a
stack holds the polls whose handlers are running.

The two kinds of subscription differ in the changes they are shown and in the query.
-/
namespace Esdb.ScriptSubscription

open AscendingLog
open Esdb.Script (Thrown)

/-- The changes that a kind of subscription is shown, and which of them are for a
subscription to a key. -/
structure Feed (α : Type) where
  revision : α → ℕ
  wanted : Option Bytes → α → Bool

/-- `ObjectSubscription`, `StoreSubscription`: the key filter, whether there is a
handler, and the two fields that change. -/
structure Subscription where
  key : Option Bytes
  handler : Bool
  closed : Bool
  revision : ℕ
  deriving DecidableEq, Repr

/-- What `changesSince` returns. -/
structure Window (α : Type) where
  lastRevision : ℕ
  changes : List α
  deriving DecidableEq, Repr

/-- What `poll` returns. -/
structure Delivery (α : Type) where
  revision : ℕ
  count : ℕ
  changes : List α
  deriving DecidableEq, Repr

/-- A poll whose handler is running on `change`. -/
structure Frame (α : Type) where
  change : α
  rest : List α
  delivered : List α
  deriving DecidableEq, Repr

/-- A poll calls its handler, or it returns. -/
inductive Progress (α : Type) where
  | calls (frame : Frame α)
  | returns (delivery : Delivery α)
  deriving DecidableEq, Repr

variable {α S : Type}

def Progress.delivered : Progress α → List α
  | .calls frame => frame.delivered
  | .returns delivery => delivery.changes

/-- The loop over the window, up to the next call of the handler. -/
def Feed.loop (feed : Feed α) : List α → List α → Subscription → Progress α × Subscription
  | [], delivered, sub => (.returns ⟨sub.revision, delivered.length, delivered⟩, sub)
  | change :: rest, delivered, sub =>
      if feed.wanted sub.key change then
        if sub.handler then (.calls ⟨change, rest, delivered⟩, sub)
        else
          feed.loop rest (delivered ++ [change]) { sub with revision := feed.revision change }
      else feed.loop rest delivered { sub with revision := feed.revision change }

/-- `poll` from the window on. -/
def Feed.start (feed : Feed α) (window : Window α) (sub : Subscription) :
    Progress α × Subscription :=
  if window.changes = [] then
    (.returns ⟨window.lastRevision, 0, []⟩, { sub with revision := window.lastRevision })
  else feed.loop window.changes [] sub

/-- `poll` from a normal return of the handler on. -/
def Feed.resume (feed : Feed α) (frame : Frame α) (sub : Subscription) :
    Progress α × Subscription :=
  feed.loop frame.rest (frame.delivered ++ [frame.change])
    { sub with revision := feed.revision frame.change }

/-- `close`. -/
def Subscription.close (sub : Subscription) : Subscription :=
  { sub with closed := true, handler := false }

/-- `poll` and `changesSince` up to the query: the revision and the limit to ask with. A
limit is what `Number` makes of the argument, if that is an integer. -/
def Subscription.request (limit : Option ℤ) (sub : Subscription) : Except Thrown (ℕ × ℕ) :=
  if sub.closed then .error ⟨"subscription is closed", none⟩
  else if revisionMax < sub.revision then
    .error ⟨"after revision exceeds ESDB's signed-64 revision domain", none⟩
  else
    match limit with
    | none => .error ⟨"change limit must be an integer in 0..10000 (0 means 10000)", none⟩
    | some n =>
        if n < 0 ∨ 10000 < n then
          .error ⟨"change limit must be an integer in 0..10000 (0 means 10000)", none⟩
        else .ok (sub.revision, n.toNat)

theorem Subscription.request_ok {limit : Option ℤ} {sub : Subscription} {after bounded : ℕ}
    (h : sub.request limit = .ok (after, bounded)) :
    after = sub.revision ∧ bounded ≤ 10000 := by
  unfold Subscription.request at h
  split_ifs at h
  split at h
  · cases h
  · split_ifs at h with hn
    cases h
    exact ⟨rfl, by omega⟩

/-! ## Delivery -/

/-- A poll whose handler is running, with the cursor at the time of the call and the
journal that its window was read from. -/
structure Running (S α : Type) where
  frame : Frame α
  entered : ℕ
  source : S

/-- A subscription with its polls, the innermost first. The other fields are not in the
source and nothing reads them: the changes accepted so far, those of them that a handler
has returned from, and the journal that the cursor is a position in. -/
structure Reader (S α : Type) where
  sub : Subscription
  running : List (Running S α)
  accepted : List α
  handed : List α
  source : S

namespace Reader

/-- What a poll has come to since it had delivered `before`. -/
def advance (source : S) (before : List α) (p : Progress α × Subscription) (y : Reader S α) :
    Reader S α where
  sub := p.2
  running := match p.1 with
    | .calls frame => ⟨frame, p.2.revision, source⟩ :: y.running
    | .returns _ => y.running
  accepted := y.accepted ++ p.1.delivered.drop before.length
  handed := y.handed
  source := source

/-- A query has been answered. -/
def answered (feed : Feed α) (source : S) (window : Window α) (y : Reader S α) : Reader S α :=
  y.advance source [] (feed.start window y.sub)

/-- The innermost handler returns. -/
def handlerReturns (feed : Feed α) (y : Reader S α) : Reader S α :=
  match y.running with
  | [] => y
  | r :: running =>
      let frame := r.frame
      { y with
        running := running
        accepted := y.accepted ++ [frame.change]
        handed := y.handed ++ [frame.change] }.advance r.source (frame.delivered ++ [frame.change])
          (feed.resume frame y.sub)

/-- The innermost handler throws, and so does its poll. -/
def handlerThrows (y : Reader S α) : Reader S α := { y with running := y.running.tail }

def close (y : Reader S α) : Reader S α := { y with sub := y.sub.close }

/-- The condition on a handler that returns: the cursor is where it was when the handler was
called. -/
def Undisturbed (y : Reader S α) : Prop := ∀ r ∈ y.running.head?, y.sub.revision = r.entered

variable (feed : Feed α) (journal : S → List α)

/-- Two journals have the same changes between the start and the cursor. -/
def Agree (start cursor : ℕ) (s t : S) : Prop :=
  between feed.revision (journal s) start cursor = between feed.revision (journal t) start cursor

/-- A poll that can go on: what it has left is what its journal has next, and nothing that the
subscription has passed since is in doubt unless the cursor has moved. -/
structure Resumable (start : ℕ) (y : Reader S α) (r : Running S α) : Prop where
  start_le : start ≤ r.entered
  le_cursor : r.entered ≤ y.sub.revision
  ascending : Ascending feed.revision (journal r.source)
  window : r.frame.change :: r.frame.rest <+: after feed.revision (journal r.source) r.entered
  wanted : feed.wanted y.sub.key r.frame.change = true
  agree : r.entered = y.sub.revision → Agree feed journal start y.sub.revision r.source y.source

/-- Everything between the start and the cursor has been accepted, once and in order. -/
structure Follows (start : ℕ) (y : Reader S α) : Prop where
  start_le : start ≤ y.sub.revision
  position : y.sub.revision = start ∨
    ∃ x ∈ journal y.source, feed.revision x = y.sub.revision
  ascending : Ascending feed.revision (journal y.source)
  accepted : y.accepted =
    (between feed.revision (journal y.source) start y.sub.revision).filter (feed.wanted y.sub.key)
  handed : y.sub.handler = true → y.handed = y.accepted
  running : ∀ r ∈ y.running, Resumable feed journal start y r

variable {feed journal} {start : ℕ} {y y' : Reader S α}

/-- Journals agree where nothing has been passed. -/
theorem agree_unread {cursor : ℕ} {s t : S} (h : cursor ≤ start) :
    Agree feed journal start cursor s t := by
  unfold Agree
  rw [between_eq_nil h, between_eq_nil h]

/-- The polls that wait stay resumable while the cursor moves on. -/
theorem Resumable.forward {r : Running S α} (h : Resumable feed journal start y r)
    (hk : y'.sub.key = y.sub.key) (hlt : y.sub.revision < y'.sub.revision) :
    Resumable feed journal start y' r := by
  have hle := h.le_cursor
  refine ⟨h.start_le, by omega, h.ascending, h.window, by rw [hk]; exact h.wanted, fun he => ?_⟩
  omega

/-- The cursor moves to the next change of the journal, which is accepted if it is wanted. -/
theorem Follows.pass (h : Follows feed journal start y) (y' : Reader S α) {x : α} {rest : List α}
    (hw : x :: rest <+: after feed.revision (journal y.source) y.sub.revision)
    (hs : y'.source = y.source) (hk : y'.sub.key = y.sub.key)
    (hrev : y'.sub.revision = feed.revision x) (hrun : y'.running = y.running)
    (hacc : y'.accepted = if feed.wanted y.sub.key x then y.accepted ++ [x] else y.accepted)
    (hhand : y'.sub.handler = true → y'.handed = y'.accepted) :
    Follows feed journal start y' ∧
      rest <+: after feed.revision (journal y'.source) y'.sub.revision := by
  obtain ⟨hlt, hone, hrest⟩ := h.ascending.window hw
  have hstart := h.start_le
  have hmem : x ∈ journal y.source :=
    (mem_after.mp (hw.subset List.mem_cons_self)).1
  rw [hs, hrev]
  refine ⟨⟨by omega, .inr ⟨x, hs ▸ hmem, hrev.symm⟩, hs ▸ h.ascending, ?_, hhand, ?_⟩, hrest⟩
  · have hpast := h.ascending.between_append hstart (Nat.le_of_lt hlt)
    rw [hacc, hs, hk, hrev, hpast, hone, List.filter_append, ← h.accepted]
    by_cases hwant : feed.wanted y.sub.key x = true
    · rw [if_pos hwant, List.filter_cons_of_pos hwant, List.filter_nil]
    · rw [if_neg hwant, List.filter_cons_of_neg hwant, List.filter_nil, List.append_nil]
  · intro r hr
    exact (h.running r (hrun ▸ hr)).forward hk (by omega)

/-! ## The loop -/

theorem loop_delivered (feed : Feed α) (window delivered : List α) (sub : Subscription) :
    delivered <+: (feed.loop window delivered sub).1.delivered := by
  induction window generalizing delivered sub with
  | nil => exact List.prefix_rfl
  | cons x rest ih =>
      simp only [Feed.loop]
      split_ifs
      · exact List.prefix_rfl
      · exact (List.prefix_append _ _).trans (ih _ _)
      · exact ih _ _

/-- One more change delivered is one more accepted. -/
theorem advance_cons {source : S} {before : List α} {x : α} {p : Progress α × Subscription}
    (h : before ++ [x] <+: p.1.delivered) :
    y.advance source before p =
      { y with accepted := y.accepted ++ [x] }.advance source (before ++ [x]) p := by
  obtain ⟨tail, htail⟩ := h
  simp only [advance, ← htail]
  congr 1
  simp

/-- The handler is called: the poll waits. -/
theorem Follows.call (h : Follows feed journal start y) {frame : Frame α}
    (hw : frame.change :: frame.rest <+: after feed.revision (journal y.source) y.sub.revision)
    (hwant : feed.wanted y.sub.key frame.change = true) :
    Follows feed journal start
      { y with running := ⟨frame, y.sub.revision, y.source⟩ :: y.running } := by
  refine ⟨h.start_le, h.position, h.ascending, h.accepted, h.handed, fun r hr => ?_⟩
  rcases List.mem_cons.mp hr with rfl | hr
  · exact ⟨h.start_le, Nat.le_refl _, h.ascending, hw, hwant, fun _ => rfl⟩
  · have hold := h.running r hr
    exact ⟨hold.start_le, hold.le_cursor, hold.ascending, hold.window, hold.wanted, hold.agree⟩

theorem Follows.loop (h : Follows feed journal start y) {window : List α} (delivered : List α)
    (hw : window <+: after feed.revision (journal y.source) y.sub.revision) :
    Follows feed journal start (y.advance y.source delivered (feed.loop window delivered y.sub)) ∧
      y.sub.revision ≤ (feed.loop window delivered y.sub).2.revision := by
  induction window generalizing y delivered with
  | nil =>
      simp only [Feed.loop, advance, Progress.delivered, List.drop_length, List.append_nil]
      exact ⟨h, Nat.le_refl _⟩
  | cons x rest ih =>
      have hlt := (h.ascending.window hw).1
      by_cases hwant : feed.wanted y.sub.key x = true
      · by_cases hhandler : y.sub.handler = true
        · simp only [Feed.loop, hwant, hhandler, if_true, advance, Progress.delivered,
            List.drop_length, List.append_nil]
          exact ⟨h.call hw hwant, Nat.le_refl _⟩
        · have hloop : feed.loop (x :: rest) delivered y.sub =
              feed.loop rest (delivered ++ [x])
                { y.sub with revision := feed.revision x } := by
            simp only [Feed.loop, hwant, hhandler, if_true, Bool.false_eq_true, if_false]
          have hpass := h.pass { y with
              sub := { y.sub with revision := feed.revision x }
              accepted := y.accepted ++ [x] } hw rfl rfl rfl rfl (by rw [if_pos hwant])
            (fun hh => absurd hh hhandler)
          obtain ⟨hfollows, hle⟩ := ih hpass.1 (delivered ++ [x]) hpass.2
          rw [hloop, advance_cons (loop_delivered _ _ _ _)]
          exact ⟨hfollows, Nat.le_trans (Nat.le_of_lt hlt) hle⟩
      · have hloop : feed.loop (x :: rest) delivered y.sub =
            feed.loop rest delivered { y.sub with revision := feed.revision x } := by
          simp only [Feed.loop, hwant, Bool.false_eq_true, if_false]
        have hpass := h.pass { y with sub := { y.sub with revision := feed.revision x } }
          hw rfl rfl rfl rfl (by rw [if_neg hwant]) h.handed
        obtain ⟨hfollows, hle⟩ := ih hpass.1 delivered hpass.2
        rw [hloop]
        exact ⟨hfollows, Nat.le_trans (Nat.le_of_lt hlt) hle⟩


/-! ## The steps of a subscription -/

/-- A journal that agrees with the one the cursor is a position in takes its place. -/
theorem Follows.reread (h : Follows feed journal start y) {source : S}
    (hasc : Ascending feed.revision (journal source))
    (hagree : Agree feed journal start y.sub.revision source y.source) :
    Follows feed journal start { y with source := source } := by
  refine ⟨h.start_le, ?_, hasc, ?_, h.handed, fun r hr => ?_⟩
  · rcases h.position with he | ⟨x, hx, he⟩
    · exact .inl he
    · have hstart := h.start_le
      by_cases heq : y.sub.revision = start
      · exact .inl heq
      · have hb : x ∈ between feed.revision (journal y.source) start y.sub.revision :=
          mem_between.mpr ⟨hx, by omega, Nat.le_of_eq he⟩
        rw [← hagree] at hb
        exact .inr ⟨x, (mem_between.mp hb).1, he⟩
  · rw [hagree]
    exact h.accepted
  · have hold := h.running r hr
    exact ⟨hold.start_le, hold.le_cursor, hold.ascending, hold.window, hold.wanted,
      fun he => (hold.agree he).trans hagree.symm⟩

/-- What a query must answer: the first changes after the cursor, of a journal in which those
up to the cursor are the ones that the cursor has passed. -/
structure Serves (feed : Feed α) (journal : S → List α) (start : ℕ) (y : Reader S α) (source : S)
    (window : Window α) : Prop where
  ascending : Ascending feed.revision (journal source)
  agree : Agree feed journal start y.sub.revision source y.source
  changes : ∃ n, 0 < n ∧
    window.changes = (after feed.revision (journal source) y.sub.revision).take n
  empty : window.changes = [] → window.lastRevision = y.sub.revision

theorem Follows.answered (h : Follows feed journal start y) {source : S} {window : Window α}
    (hs : Serves feed journal start y source window) :
    Follows feed journal start (y.answered feed source window) ∧
      y.sub.revision ≤ (y.answered feed source window).sub.revision := by
  have hsame := h.reread hs.ascending hs.agree
  unfold Reader.answered Feed.start
  by_cases hempty : window.changes = []
  · rw [if_pos hempty, hs.empty hempty]
    have he : y.advance source [] ((.returns ⟨y.sub.revision, 0, []⟩, { y.sub with
        revision := y.sub.revision }) : Progress α × Subscription) = { y with source := source } := by
      simp [advance, Progress.delivered]
    rw [he]
    exact ⟨hsame, Nat.le_refl _⟩
  · rw [if_neg hempty]
    obtain ⟨n, -, hn⟩ := hs.changes
    exact hsame.loop [] (hn ▸ List.take_prefix _ _)

theorem Follows.handlerReturns (h : Follows feed journal start y) (hu : y.Undisturbed) :
    Follows feed journal start (y.handlerReturns feed) ∧
      y.sub.revision ≤ (y.handlerReturns feed).sub.revision := by
  unfold Reader.handlerReturns
  cases hr : y.running with
  | nil => exact ⟨h, Nat.le_refl _⟩
  | cons r running =>
      have hmem : r ∈ y.running := hr ▸ List.mem_cons_self
      have hres := h.running r hmem
      have hentered : r.entered = y.sub.revision := (hu r (by rw [hr]; rfl)).symm
      have hsame := h.reread hres.ascending (hres.agree hentered)
      have hpopped : Follows feed journal start { y with source := r.source, running := running } :=
        ⟨hsame.start_le, hsame.position, hsame.ascending, hsame.accepted, hsame.handed,
          fun r' hr' => by
            have hold := hsame.running r' (hr ▸ List.mem_cons_of_mem _ hr')
            exact ⟨hold.start_le, hold.le_cursor, hold.ascending, hold.window, hold.wanted,
              hold.agree⟩⟩
      have hw := hres.window
      rw [hentered] at hw
      have hlt := (hres.ascending.window hw).1
      have hpass := hpopped.pass { y with
          source := r.source
          running := running
          sub := { y.sub with revision := feed.revision r.frame.change }
          accepted := y.accepted ++ [r.frame.change]
          handed := y.handed ++ [r.frame.change] } hw rfl rfl rfl rfl
        (by rw [if_pos hres.wanted]) (fun hh => by rw [h.handed hh])
      obtain ⟨hfollows, hle⟩ := hpass.1.loop (r.frame.delivered ++ [r.frame.change])
        hpass.2
      exact ⟨hfollows, Nat.le_trans (Nat.le_of_lt hlt) hle⟩

theorem Follows.handlerThrows (h : Follows feed journal start y) :
    Follows feed journal start y.handlerThrows := by
  refine ⟨h.start_le, h.position, h.ascending, h.accepted, h.handed, fun r hr => ?_⟩
  have hold := h.running r (List.mem_of_mem_tail hr)
  exact ⟨hold.start_le, hold.le_cursor, hold.ascending, hold.window, hold.wanted, hold.agree⟩

theorem Follows.close (h : Follows feed journal start y) : Follows feed journal start y.close := by
  have hhanded : y.close.sub.handler = true → y.close.handed = y.close.accepted := fun hh =>
    absurd hh (by simp [Reader.close, Subscription.close])
  refine ⟨h.start_le, h.position, h.ascending, h.accepted, hhanded, fun r hr => ?_⟩
  have hold := h.running r hr
  exact ⟨hold.start_le, hold.le_cursor, hold.ascending, hold.window, hold.wanted, hold.agree⟩

theorem mem_advance {source : S} {before : List α} {p : Progress α × Subscription}
    {r : Running S α} (h : r ∈ (y.advance source before p).running) :
    r ∈ y.running ∨ r.source = source := by
  obtain ⟨progress, sub⟩ := p
  cases progress with
  | calls frame =>
      rcases List.mem_cons.mp h with rfl | h
      · exact .inr rfl
      · exact .inl h
  | returns delivery => exact .inl h

/-- A handler that returns brings back the journal of its own poll. -/
theorem handlerReturns_source (feed : Feed α) (P : S → Prop) (hs : P y.source)
    (hr : ∀ r ∈ y.running, P r.source) :
    P (y.handlerReturns feed).source ∧ ∀ r ∈ (y.handlerReturns feed).running, P r.source := by
  cases hrun : y.running with
  | nil =>
      have hsame : y.handlerReturns feed = y := by simp only [Reader.handlerReturns, hrun]
      rw [hsame]
      exact ⟨hs, hr⟩
  | cons r₀ running =>
      rw [hrun] at hr
      simp only [Reader.handlerReturns, hrun]
      refine ⟨hr r₀ List.mem_cons_self, fun r h => ?_⟩
      rcases mem_advance h with h | h
      · exact hr r (List.mem_cons_of_mem _ h)
      · exact h ▸ hr r₀ List.mem_cons_self

/-- What has been accepted, by itself: it is wanted, lies between the start and the cursor and
was handed over once, in ascending order, to a handler that returned. -/
structure Exact (feed : Feed α) (start : ℕ) (y : Reader S α) : Prop where
  start_le : start ≤ y.sub.revision
  ascending : (y.accepted.map feed.revision).Pairwise (· < ·)
  range : ∀ x ∈ y.accepted, start < feed.revision x ∧ feed.revision x ≤ y.sub.revision ∧
    feed.wanted y.sub.key x = true
  handed : y.sub.handler = true → y.handed = y.accepted

theorem Follows.exact (h : Follows feed journal start y) : Exact feed start y := by
  refine ⟨h.start_le, ?_, fun x hx => ?_, h.handed⟩
  · rw [h.accepted, List.pairwise_map]
    exact (h.ascending.between _ _).filter _
  · rw [h.accepted, List.mem_filter, mem_between] at hx
    exact ⟨hx.1.2.1, hx.1.2.2, hx.2⟩

/-- A subscription that has just been made. -/
theorem follows_new {key : Option Bytes} {handler : Bool} {source : S}
    (hasc : Ascending feed.revision (journal source)) :
    Follows feed journal start ⟨⟨key, handler, false, start⟩, [], [], [], source⟩ := by
  refine ⟨Nat.le_refl _, .inl rfl, hasc, ?_, fun _ => rfl, fun _ hr => nomatch hr⟩
  rw [between_eq_nil (Nat.le_refl _)]
  rfl


end Reader

end Esdb.ScriptSubscription
