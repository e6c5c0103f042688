import HarvestCircle.IdentityRecovery

/-! # Sessions that end in a restart

Operations run one after another, each with a request of its own, and any of them may
be stopped by a failing call.  Then the process restarts and recovers the rows that
were left behind.  The question is what becomes of the operations that completed:
`recovery_spares_completed_iff` answers it for every session.
-/
namespace HarvestCircle
open Checked Interruption Installation

/-- An operation that recorded its intent, with the row it left. -/
structure Started where
  operation : IdentityOperation
  row : DurableIdentityOperation

/-- The last operation on a key that recorded its intent. -/
def lastStarted (key : PublicKey) (log : List Started) : Option Started :=
  (log.filter fun entry => entry.row.identity = key).getLast?

section
variable {key : PublicKey} (log : List Started) (entry : Started)

theorem lastStarted_append_self (h : entry.row.identity = key) :
    lastStarted key (log ++ [entry]) = some entry := by
  simp [lastStarted, h]

theorem lastStarted_append_other (h : entry.row.identity ≠ key) :
    lastStarted key (log ++ [entry]) = lastStarted key log := by
  simp [lastStarted, h]

end

section
variable [KeyMaterialProvider]

/-- One session from `s`: the log has the operations that recorded their intent.  Anything
else the process does in between changes only its memory and the saved selection. -/
inductive Session (s : Installation) : List Started → Installation → Prop where
  | start : Session s [] s
  | aside {log : List Started} {t : Installation} (h : Session s log t) (core : CoreState)
      (selected : Option PublicKey) : Session s log { t with core, selected }
  | operate {log : List Started} {t : Installation} (h : Session s log t)
      (operation : IdentityOperation) (hfresh : t.journal[operation.request]? = none)
      (calls : Nat) :
      Session s (log ++ (operation.run calls t).2.journal[operation.request]?.toList.map
        fun row => ⟨operation, row⟩) (operation.run calls t).2

/-- What a completed operation on the key left there. -/
structure Left (key : PublicKey) (entry : Started) (t : Installation) : Prop where
  added : entry.row.kind ≠ .remove → ∃ secret,
    entry.operation.command.material = some (key, secret) ∧
    t.secrets[key]? = some ⟨entry.operation.request, secret⟩ ∧ Attempt.Available key t
  removed : entry.row.kind = .remove → t.secrets[key]? = none ∧ t.identities.find key = none

variable {s t : Installation}

theorem Left.spared {key : PublicKey} {entry : Started} (h : Left key entry s)
    (hspared : Spared key s t) : Left key entry t := by
  refine ⟨fun hkind => ?_, fun hkind => ?_⟩
  · obtain ⟨secret, hmaterial, hcredential, havailable⟩ := h.added hkind
    refine ⟨secret, hmaterial, hspared.secrets.trans hcredential, ?_⟩
    rw [Attempt.Available, hspared.identities]
    exact havailable
  · rw [hspared.secrets, hspared.identities]
    exact h.removed hkind

/-- **What the last started operation on a key completed is there when the session ends.** -/
theorem Session.left {log : List Started} (h : Session s log t) {key : PublicKey} {entry : Started}
    (hlast : lastStarted key log = some entry)
    (hcompleted : entry.row.terminal.map (·.outcome) = some .completed) : Left key entry t := by
  induction h with
  | start => cases hlast
  | aside _ core selected ih => exact (ih hlast).spared ⟨rfl, rfl⟩
  | @operate log t h operation hfresh calls ih =>
    generalize hu : (operation.run calls t).2 = u at hlast ⊢
    have hleaves : operation.Leaves t u := hu ▸ operation.leaves_run calls t
    -- a row that was recorded is the last one of its own key
    have hstarted : ∀ row, u.journal[operation.request]? = some row →
        Elsewhere row.identity t u → (row.terminal.map (·.outcome) = some .completed →
          Left row.identity ⟨operation, row⟩ u) → Left key entry u := by
      intro row hrow helsewhere hleft
      rw [hrow, Option.toList_some, List.map_singleton] at hlast
      by_cases hkey : row.identity = key
      · subst hkey
        rw [lastStarted_append_self log ⟨operation, row⟩ rfl] at hlast
        cases hlast
        exact hleft hcompleted
      · rw [lastStarted_append_other log ⟨operation, row⟩ hkey] at hlast
        have hother := helsewhere key (Ne.symm hkey)
        exact (ih hlast).spared ⟨hother.1, hother.2⟩
    cases hleaves with
    | nothing hsame =>
      rw [hsame.journal, hfresh, Option.toList_none, List.map_nil, List.append_nil] at hlast
      exact (ih hlast).spared ⟨by rw [hsame.secrets], by rw [hsame.identities]⟩
    | adding _ a secret hrequest hkind hmaterial _ _ h =>
      obtain ⟨phase, outcome, hat⟩ := h
      obtain ⟨row, hrow, -, hrow_kind, hidentity, -, -, houtcome⟩ := hat.journal.row
      refine hstarted row (hrequest ▸ hrow) (hidentity ▸ hat.elsewhere) fun hdone => ?_
      rw [← houtcome, hdone] at hat
      rw [hidentity]
      exact ⟨fun _ => ⟨secret, hmaterial, hrequest ▸ hat.added.credential, hat.added.available⟩,
        fun hremove => absurd (hrow_kind.symm.trans hremove) hkind⟩
    | removing _ a token hrequest hkind _ _ _ h =>
      obtain ⟨phase, outcome, hat⟩ := h
      obtain ⟨row, hrow, -, hrow_kind, hidentity, -, -, houtcome⟩ := hat.journal.row
      refine hstarted row (hrequest ▸ hrow) (hidentity ▸ hat.elsewhere) fun hdone => ?_
      rw [← houtcome, hdone] at hat
      rw [hidentity]
      exact ⟨fun hne => absurd (hrow_kind.trans hkind) hne,
        fun _ => ⟨hat.removed.credential, hat.removed.identity⟩⟩

/-- **Recovery spares what an operation completed exactly when no row left behind destroys it.**
Take any session, a key whose last started operation completed, and a restart whose recovery
succeeds.  A completed removal stays.  A completed create, import or repair keeps its credential
and its available metadata if and only if, at the restart, no unfinished row of the key is still
at its intent, no unfinished removal of it has got as far as deleting the credential and no
farther, and no addition of it waits for compensation. -/
theorem recovery_spares_completed_iff {s t u : Installation} {log : List Started}
    (hsession : Session s log t) {key : PublicKey} {entry : Started}
    (hlast : lastStarted key log = some entry)
    (hcompleted : entry.row.terminal.map (·.outcome) = some .completed)
    {relays : RelayConfiguration} {now : UnixTimestamp} {calls rest : Nat}
    (hrestart : restart relays now calls t = (.ok ((), rest), u)) :
    (entry.row.kind = .remove → u.secrets[key]? = none ∧ u.identities.find key = none) ∧
    (entry.row.kind ≠ .remove → ∃ secret,
      entry.operation.command.material = some (key, secret) ∧
      ((u.secrets[key]? = some ⟨entry.operation.request, secret⟩ ∧ Attempt.Available key u) ↔
        ∀ row ∈ unfinished t.journal, ¬ Destroys key row)) := by
  have hleft := hsession.left hlast hcompleted
  refine ⟨fun hkind => ?_, fun hkind => ?_⟩
  · obtain ⟨hsecret, hidentity⟩ := hleft.removed hkind
    exact (restart_gone hsecret hidentity).of_ok hrestart
  · obtain ⟨secret, hmaterial, hcredential, havailable⟩ := hleft.added hkind
    refine ⟨secret, hmaterial, fun hkept row hrow hdestroys => ?_, fun hsafe => ?_⟩
    · rcases (restart_destroys ⟨row, hrow, hdestroys⟩).of_ok hrestart with hgone | hforgotten
      · rw [hgone] at hkept
        cases hkept.1
      · have := hkept.2
        rw [Attempt.Available, hforgotten] at this
        cases this
    · have hspared := (restart_spares hsafe havailable).of_ok hrestart
      refine ⟨hspared.secrets.trans hcredential, ?_⟩
      rw [Attempt.Available, hspared.identities]
      exact havailable

end

/-! ## An import that failed undoes the one that succeeded

The key is the one of secret 1.  Its first import is stopped before it writes the credential,
the second one, with a request of its own, completes.
-/

def ringKey : PublicKey where
  value := 0x79be667ef9dcbbac55a06295ce870b07029bfcdb2dce28d959f2815b16f81798

def ringSecret : SecretKeyInput where
  value := 1

def ringInput : String := "0000000000000000000000000000000000000000000000000000000000000001"

@[reducible] def ringMaterial : KeyMaterialProvider where
  importKey input :=
    if input = ringInput then .ok (ringKey, ringSecret) else .error .invalidSecretKey

def ringTime : UnixTimestamp := .of 1000

/-- A new installation, right after its first start. -/
def ringFresh : Installation where
  secrets := ∅
  identities := .empty
  selected := none
  journal := ∅
  core := ((CoreState.booting {}).applyTransition (.bootstrapRegistry [] none)).2

def ringImport (request : DurableRequestId) : IdentityOperation :=
  ⟨request, .importKey 1 ringInput, ringTime⟩

def ringFirst : DurableRequestId where
  value := 1

def ringSecond : DurableRequestId where
  value := 2

/-- The first import is stopped at its sixth call, the write of the credential. -/
def ringStopped : Installation :=
  (@IdentityOperation.run ringMaterial (ringImport ringFirst) 5 ringFresh).2

def ringDone (s : Installation) : Installation :=
  (@IdentityOperation.run ringMaterial (ringImport ringSecond) 50 s).2

def ringRestarted (s : Installation) : Installation := (restart {} ringTime 50 s).2

variable {s : Installation}

theorem ring_restart_ok (hok : (restart {} ringTime 50 s).1.isOk = true) :
    ∃ rest, restart {} ringTime 50 s = (.ok ((), rest), ringRestarted s) := by
  unfold ringRestarted
  generalize restart {} ringTime 50 s = outcome at hok
  rcases outcome with ⟨_ | ⟨⟨⟩, rest⟩, u⟩
  · cases hok
  · exact ⟨rest, rfl⟩

/-- An import that completed is the last operation on the key that the session started. -/
theorem ring_session {log : List Started} (operation : IdentityOperation)
    (hsession : @Session ringMaterial ringFresh log s)
    (hfresh : s.journal[operation.request]? = none)
    (hrow : ((@IdentityOperation.run ringMaterial operation 50 s).2.journal[operation.request]?).map
      (fun row => (row.identity, row.kind, row.terminal.map (·.outcome))) =
      some (ringKey, .import, some .completed)) :
    ∃ log row, @Session ringMaterial ringFresh log
        (@IdentityOperation.run ringMaterial operation 50 s).2 ∧
      lastStarted ringKey log = some ⟨operation, row⟩ ∧ row.kind = .import ∧
      row.terminal.map (·.outcome) = some .completed := by
  obtain ⟨row, hrow, hread⟩ := Option.map_eq_some_iff.mp hrow
  obtain ⟨hidentity, hkind, houtcome⟩ : row.identity = ringKey ∧ row.kind = .import ∧
      row.terminal.map (·.outcome) = some .completed := by simpa using hread
  refine ⟨_, row, @Session.operate ringMaterial _ _ _ hsession operation hfresh 50, ?_, hkind,
    houtcome⟩
  rw [hrow]
  exact lastStarted_append_self _ ⟨operation, row⟩ hidentity

/-- The second import completed and its credential was stored; recovery of the first one
deleted it. -/
theorem recovery_deletes_completed_import : ∃ log row,
    @Session ringMaterial ringFresh log (ringDone ringStopped) ∧
    lastStarted ringKey log = some ⟨ringImport ringSecond, row⟩ ∧
    row.kind = .import ∧ row.terminal.map (·.outcome) = some .completed ∧
    (ringDone ringStopped).secrets[ringKey]? = some ⟨ringSecond, ringSecret⟩ ∧
    (restart {} ringTime 50 (ringDone ringStopped)).1.isOk = true ∧
    (ringRestarted (ringDone ringStopped)).secrets[ringKey]? = none := by
  have hstopped := @Session.operate ringMaterial _ _ _ (@Session.start ringMaterial ringFresh)
    (ringImport ringFirst) (by decide +kernel) 5
  have hstored : (ringDone ringStopped).secrets[ringKey]? = some ⟨ringSecond, ringSecret⟩ := by
    decide +kernel
  obtain ⟨log, row, hsession, hlast, hkind, houtcome⟩ :=
    ring_session (ringImport ringSecond) hstopped (by decide +kernel) (by decide +kernel)
  exact ⟨log, row, hsession, hlast, hkind, houtcome, hstored, by decide +kernel,
    by decide +kernel⟩

/-- The key was imported, and its removal is asked for. -/
def ringAsked : Installation :=
  { ringDone ringFresh with
    core := ((ringDone ringFresh).core.issueRemovalToken ringKey ringTime).2 }

def ringRemoval : IdentityOperation where
  request := ringFirst
  command := .remove ⟨⟨ringKey, ringAsked.core.snapshot.revision, .of 1300, ⟨true, false⟩⟩, 1⟩
  now := ringTime

/-- The removal is stopped when it has moved its row on to `metadataDeleted`. -/
def ringForgotten : Installation :=
  (@IdentityOperation.run ringMaterial ringRemoval 6 ringAsked).2

def ringReimport : IdentityOperation := ⟨.of 3, .importKey 2 ringInput, ringTime⟩

/-- The key is imported anew. -/
def ringReturned : Installation :=
  (@IdentityOperation.run ringMaterial ringReimport 50 ringForgotten).2

/-- A removal that was left behind past its deletions spares the import that came after it. -/
theorem recovery_spares_later_import :
    (unfinished ringReturned.journal).map (fun row => (row.requestId, row.identity, row.phase)) =
      [(ringFirst, ringKey, .metadataDeleted)] ∧
    (ringRestarted ringReturned).secrets[ringKey]? = some ⟨ringReimport.request, ringSecret⟩ ∧
    Attempt.Available ringKey (ringRestarted ringReturned) := by
  have hasked := @Session.aside ringMaterial _ _ _ (@Session.operate ringMaterial _ _ _
    (@Session.start ringMaterial ringFresh) (ringImport ringSecond) (by decide +kernel) 50)
    ringAsked.core ringAsked.selected
  have hforgotten := @Session.operate ringMaterial _ _ _ hasked ringRemoval (by decide +kernel) 6
  obtain ⟨log, row, hsession, hlast, hkind, houtcome⟩ :=
    ring_session (s := ringForgotten) ringReimport hforgotten (by decide +kernel)
      (by decide +kernel)
  have hok : (restart {} ringTime 50 ringReturned).1.isOk = true := by decide +kernel
  have hsafe : ∀ row ∈ unfinished ringReturned.journal, ¬ Destroys ringKey row := by
    decide +kernel
  have hmaterial : @IdentityCommand.material ringMaterial ringReimport.command =
    some (ringKey, ringSecret) := by decide +kernel
  obtain ⟨rest, hrun⟩ := ring_restart_ok hok
  obtain ⟨-, hadded⟩ :=
    @recovery_spares_completed_iff ringMaterial _ _ _ _ hsession _ _ hlast houtcome _ _ _ _ hrun
  obtain ⟨secret, hsecret, hiff⟩ := hadded (by simp [hkind])
  obtain rfl : ringSecret = secret := by simpa [hmaterial] using hsecret
  exact ⟨by decide +kernel, hiff.mpr hsafe⟩

end HarvestCircle
