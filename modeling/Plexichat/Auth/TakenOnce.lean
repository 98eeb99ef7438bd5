import Plexichat.Auth.OneTime

/-! Whatever the calls do side by side, a challenge, a ticket, a state and a stored backup
code are taken once, and a typed TOTP code once in the life of its claim. -/
namespace Plexichat.Auth.OneTime
open SingleUse Interleaving Transition

def Store.left (c : Store) (userId : Nat) (code : String) : Nat :=
  match c.users.find userId with
  | some u => (u.backupCodesHash.getD []).countP fun e => e.hash = code
  | none => 0

def grants (place : Place) (totp : List Totp) : List (ReplayKey × Int) :=
  (totp.filter fun t => t.place = place).map fun t => (t.key, t.readAt + ttl * 1000)

def Apart (later before : Totp) : Prop :=
  later.place = before.place → later.key = before.key → before.readAt + ttl * 1000 ≤ later.takenAt

structure Sound (c₀ c : Store) : Prop where
  challenges : Spent ChallengeRow.used c.challenges c.taken.challenges
  challenge : c.taken.challenges.Nodup
  tickets : Spent TicketRow.used c.tickets c.taken.tickets
  ticket : c.taken.tickets.Nodup
  states : Spent StateRow.used c.states c.taken.states
  state : c.taken.states.Nodup
  backups : ∀ userId code,
    c.taken.backups.count (userId, code) + c.left userId code = c₀.left userId code
  valkey : Barred id c.valkey c.now (grants .valkey c.taken.totp)
  replay : Barred id c.replay c.now (grants .database c.taken.totp)
  usedCodes : ∀ w, Barred (· * 1000) (c.usedCodes w) c.now (grants (.process w) c.taken.totp)
  totp : c.taken.totp.Pairwise Apart

inductive Effect (c : Store) : Store → Prop
  | same : Effect c c
  | wait (n : Nat) : Effect c { c with now := c.now + n }
  | challenge {id : Nat} {mark : ChallengeRow → ChallengeRow} {kept} {challenges}
      (marked : ∀ r, (mark r).used = true)
      (h : consume ChallengeRow.used mark kept c.challenges id = some challenges) :
    Effect c { c with challenges, taken := { c.taken with challenges := id :: c.taken.challenges } }
  | attempt {p : ChallengeRow → Bool} {f : ChallengeRow → ChallengeRow} {kept}
      (keeps : ∀ r, (f r).used = r.used) :
    Effect c { c with challenges := c.challenges.update p f kept }
  | backup {userId : Nat} {codes : List BackupEntry} {entry : BackupEntry}
      {remaining : UserRow → UserRow} {kept} (listed : entry ∈ codes)
      (current : (c.users.find userId).any fun u => u.backupCodesHash = some codes)
      (left : ∀ u, (remaining u).backupCodesHash = some (codes.erase entry)) :
    Effect c { c with
      users := c.users.update (fun u => u.id = userId) remaining kept
      taken := { c.taken with backups := (userId, entry.hash) :: c.taken.backups } }
  | ticket {id : Nat} {mark : TicketRow → TicketRow} {kept} {tickets}
      (marked : ∀ r, (mark r).used = true)
      (h : consume TicketRow.used mark kept c.tickets id = some tickets) :
    Effect c { c with tickets, taken := { c.taken with tickets := id :: c.taken.tickets } }
  | cleanup (p : StateRow → Bool) : Effect c { c with states := c.states.delete p }
  | state {id : Nat} {mark : StateRow → StateRow} {kept} {states}
      (marked : ∀ r, (mark r).used = true)
      (h : consume StateRow.used mark kept c.states id = some states) :
    Effect c { c with states, taken := { c.taken with states := id :: c.taken.states } }
  | valkey {p : Claim ReplayKey → Bool} {e : Claim ReplayKey} {timeStep readAt : Int} {valkey}
      (dead : ∀ e, p e = true → e.expiresAt ≤ c.now) (long : readAt + ttl * 1000 ≤ e.expiresAt)
      (h : (c.valkey.delete p).insert e = some valkey) :
    Effect c ({ c with valkey }.take ⟨.valkey, e.key, timeStep, readAt, c.now⟩)
  | free {p : Claim ReplayKey → Bool} (dead : ∀ e, p e = true → e.expiresAt ≤ c.now) :
    Effect c { c with replay := c.replay.delete p }
  | replay {e : Claim ReplayKey} {timeStep readAt : Int} {replay}
      (long : readAt + ttl * 1000 ≤ e.expiresAt) (h : c.replay.insert e = some replay) :
    Effect c ({ c with replay }.take ⟨.database, e.key, timeStep, readAt, c.now⟩)
  | expire {worker : Nat} {p : Claim ReplayKey → Bool}
      (dead : ∀ e, p e = true → e.expiresAt * 1000 ≤ c.now) :
    Effect c (c.markUsed worker ((c.usedCodes worker).delete p))
  | process {worker : Nat} {p : Claim ReplayKey → Bool} {e : Claim ReplayKey}
      {timeStep readAt : Int} {marked}
      (dead : ∀ e, p e = true → e.expiresAt * 1000 ≤ c.now)
      (long : readAt + ttl * 1000 ≤ e.expiresAt * 1000)
      (h : ((c.usedCodes worker).delete p).insert e = some marked) :
    Effect c ((c.markUsed worker marked).take ⟨.process worker, e.key, timeStep, readAt, c.now⟩)

section Totp

variable {place place' : Place} {t : Totp} {totp : List Totp}

theorem grants_cons_self : grants t.place (t :: totp) =
    (t.key, t.readAt + ttl * 1000) :: grants t.place totp := by
  simp [grants]

theorem grants_cons_other (other : t.place ≠ place) :
    grants place (t :: totp) = grants place totp := by
  simp [grants, other]

theorem apart_of_free (free : ∀ deadline, (t.key, deadline) ∈ grants t.place totp →
    deadline ≤ t.takenAt) : ∀ before ∈ totp, Apart t before := by
  intro before member same_place same_key
  apply free
  rw [same_key]
  exact List.mem_map.mpr ⟨before, List.mem_filter.mpr ⟨member, decide_eq_true same_place.symm⟩, rfl⟩

end Totp

section Backups

variable {c : Store}

theorem countP_erase {codes : List BackupEntry} {entry : BackupEntry} (listed : entry ∈ codes)
    (code : String) : (codes.erase entry).countP (fun e => e.hash = code) +
      (if entry.hash = code then 1 else 0) = codes.countP fun e => e.hash = code := by
  have moved := (List.perm_cons_erase listed).countP_eq fun e => decide (e.hash = code)
  rw [moved, List.countP_cons]
  simp

theorem left_backup {userId : Nat} {codes : List BackupEntry} {entry : BackupEntry}
    {remaining : UserRow → UserRow} {kept} (listed : entry ∈ codes)
    (current : (c.users.find userId).any fun u => u.backupCodesHash = some codes)
    (left : ∀ u, (remaining u).backupCodesHash = some (codes.erase entry)) {taken : Taken}
    (other : Nat) (code : String) :
    Store.left { c with users := c.users.update (fun u => u.id = userId) remaining kept, taken }
        other code + (if (userId, entry.hash) = (other, code) then 1 else 0) =
      c.left other code := by
  simp only [Store.left, Table.find_update]
  by_cases same : other = userId
  · subst same
    obtain ⟨u, found, list⟩ := (Option.any_eq_true _ _).mp current
    have id := (Table.find_eq_some.mp found).2
    simp only [found, Option.map_some, id, decide_true, if_true, left, of_decide_eq_true list,
      Option.getD_some, Prod.mk.injEq, true_and]
    exact countP_erase listed code
  · have apart : (userId, entry.hash) ≠ (other, code) := by
      intro pair
      exact same (congrArg Prod.fst pair).symm
    rw [if_neg apart, Nat.add_zero]
    cases found : c.users.find other with
    | none => rfl
    | some u =>
      have id : u.id ≠ userId := (Table.find_eq_some.mp found).2 ▸ same
      simp [id]

end Backups

section Effects

variable {c₀ c : Store}

theorem Sound.backup (sound : Sound c₀ c) {userId : Nat} {codes : List BackupEntry}
    {entry : BackupEntry} {remaining : UserRow → UserRow} {kept} (listed : entry ∈ codes)
    (current : (c.users.find userId).any fun u => u.backupCodesHash = some codes)
    (left : ∀ u, (remaining u).backupCodesHash = some (codes.erase entry)) :
    Sound c₀ { c with
      users := c.users.update (fun u => u.id = userId) remaining kept
      taken := { c.taken with backups := (userId, entry.hash) :: c.taken.backups } } := by
  refine { sound with backups := ?_ }
  intro other code
  have step := @left_backup c _ _ _ _ kept listed current left
    { c.taken with backups := (userId, entry.hash) :: c.taken.backups } other code
  rw [← sound.backups other code, ← step, List.count_cons]
  simp only [beq_iff_eq]
  exact (Nat.add_assoc _ _ _).trans (congrArg _ (Nat.add_comm _ _))

theorem barred_other {lifetime : Int → Int} {t : Claims ReplayKey} {now : Int} {place : Place}
    {new : Totp} {totp : List Totp} (barred : Barred lifetime t now (grants place totp))
    (other : new.place ≠ place) : Barred lifetime t now (grants place (new :: totp)) := by
  rw [grants_cons_other other]
  exact barred

theorem Sound.valkeyTaken (sound : Sound c₀ c) {p : Claim ReplayKey → Bool}
    {e : Claim ReplayKey} {timeStep readAt : Int} {valkey}
    (dead : ∀ e, p e = true → e.expiresAt ≤ c.now) (long : readAt + ttl * 1000 ≤ e.expiresAt)
    (h : (c.valkey.delete p).insert e = some valkey) :
    Sound c₀ ({ c with valkey }.take ⟨.valkey, e.key, timeStep, readAt, c.now⟩) := by
  have live := sound.valkey.delete dead
  exact { sound with
    valkey := by
      have bars := live.insert h long
      rwa [← @grants_cons_self ⟨.valkey, e.key, timeStep, readAt, c.now⟩] at bars
    replay := barred_other sound.replay (by simp)
    usedCodes := fun w => barred_other (sound.usedCodes w) (by simp)
    totp := List.pairwise_cons.mpr
      ⟨apart_of_free fun _ taken => live.free h taken, sound.totp⟩ }

theorem Sound.replayTaken (sound : Sound c₀ c) {e : Claim ReplayKey} {timeStep readAt : Int}
    {replay} (long : readAt + ttl * 1000 ≤ e.expiresAt) (h : c.replay.insert e = some replay) :
    Sound c₀ ({ c with replay }.take ⟨.database, e.key, timeStep, readAt, c.now⟩) := by
  exact { sound with
    valkey := barred_other sound.valkey (by simp)
    replay := by
      have bars := sound.replay.insert h long
      rwa [← @grants_cons_self ⟨.database, e.key, timeStep, readAt, c.now⟩] at bars
    usedCodes := fun w => barred_other (sound.usedCodes w) (by simp)
    totp := List.pairwise_cons.mpr
      ⟨apart_of_free fun _ taken => sound.replay.free h taken, sound.totp⟩ }

theorem Sound.expire (sound : Sound c₀ c) {worker : Nat} {p : Claim ReplayKey → Bool}
    (dead : ∀ e, p e = true → e.expiresAt * 1000 ≤ c.now) :
    Sound c₀ (c.markUsed worker ((c.usedCodes worker).delete p)) := by
  refine { sound with usedCodes := ?_ }
  intro w
  by_cases same : w = worker
  · subst same
    simpa [Store.markUsed] using (sound.usedCodes w).delete dead
  · simpa [Store.markUsed, same] using sound.usedCodes w

theorem Sound.processTaken (sound : Sound c₀ c) {worker : Nat} {p : Claim ReplayKey → Bool}
    {e : Claim ReplayKey} {timeStep readAt : Int} {marked}
    (dead : ∀ e, p e = true → e.expiresAt * 1000 ≤ c.now)
    (long : readAt + ttl * 1000 ≤ e.expiresAt * 1000)
    (h : ((c.usedCodes worker).delete p).insert e = some marked) :
    Sound c₀ ((c.markUsed worker marked).take
      ⟨.process worker, e.key, timeStep, readAt, c.now⟩) := by
  have live := (sound.usedCodes worker).delete dead
  refine { sound with
    valkey := barred_other sound.valkey (by simp)
    replay := barred_other sound.replay (by simp)
    usedCodes := ?_
    totp := List.pairwise_cons.mpr
      ⟨apart_of_free fun _ taken => live.free h taken, sound.totp⟩ }
  intro w
  by_cases same : w = worker
  · subst same
    have bars := live.insert h long
    rw [← @grants_cons_self ⟨.process w, e.key, timeStep, readAt, c.now⟩] at bars
    simpa [Store.markUsed, Store.take] using bars
  · have bars := @barred_other _ _ _ _ ⟨.process worker, e.key, timeStep, readAt, c.now⟩ _
      (sound.usedCodes w) (by simpa using Ne.symm same)
    simpa [Store.markUsed, Store.take, same] using bars

theorem Sound.effect {c' : Store} (sound : Sound c₀ c) (effect : Effect c c') :
    Sound c₀ c' := by
  cases effect with
  | same => exact sound
  | wait n =>
    have later : c.now ≤ c.now + n := Int.le_add_of_nonneg_right (Int.natCast_nonneg n)
    exact { sound with
      valkey := sound.valkey.wait later
      replay := sound.replay.wait later
      usedCodes := fun w => (sound.usedCodes w).wait later }
  | challenge marked h =>
    exact { sound with
      challenges := sound.challenges.consume marked h
      challenge := List.nodup_cons.mpr ⟨sound.challenges.fresh h, sound.challenge⟩ }
  | @attempt p f kept keeps =>
    exact { sound with
      challenges := sound.challenges.update p kept fun r used => (keeps r).trans used }
  | backup listed current left => exact sound.backup listed current left
  | ticket marked h =>
    exact { sound with
      tickets := sound.tickets.consume marked h
      ticket := List.nodup_cons.mpr ⟨sound.tickets.fresh h, sound.ticket⟩ }
  | cleanup p => exact { sound with states := sound.states.delete p }
  | state marked h =>
    exact { sound with
      states := sound.states.consume marked h
      state := List.nodup_cons.mpr ⟨sound.states.fresh h, sound.state⟩ }
  | valkey dead long h => exact sound.valkeyTaken dead long h
  | free dead => exact { sound with replay := sound.replay.delete dead }
  | replay long h => exact sound.replayTaken long h
  | expire dead => exact sound.expire dead
  | process dead long h => exact sound.processTaken dead long h

end Effects

def Pc.Known (c : Store) : Pc → Prop
  | opening _ _ _ since _ => since * 1000 ≤ c.now
  | freeing _ _ _ since readAt _ => since * 1000 ≤ c.now ∧ readAt ≤ c.now
  | inserting _ _ _ since readAt _ => since * 1000 ≤ c.now ∧ readAt ≤ c.now
  | sweeping readAt _ _ => readAt ≤ c.now
  | marking _ _ _ since _ => since * 1000 ≤ c.now
  | burning _ _ codes entry => entry ∈ codes
  | _ => True

theorem Effect.now_le {c c' : Store} (effect : Effect c c') : c.now ≤ c'.now := by
  cases effect with
  | wait n => exact Int.le_add_of_nonneg_right (Int.natCast_nonneg n)
  | _ => exact Int.le_refl _

theorem Pc.Known.later {c c' : Store} {p : Pc} (known : p.Known c) (later : c.now ≤ c'.now) :
    p.Known c' := by
  cases p with
  | opening | marking | sweeping => exact Int.le_trans known later
  | freeing | inserting => exact ⟨Int.le_trans known.1 later, Int.le_trans known.2 later⟩
  | burning => exact known
  | _ => trivial

section Statements

variable {h : Host} {cfg : OtpConfig} {c : Store} {env : Env} {p : Pc} {r : Store × Pc}

def Does (c : Store) (r : Store × Pc) : Prop := Effect c r.1 ∧ r.2.Known r.1

theorem known_answered (valid : Bool) (after : After) : (answered h valid after).Known c := by
  cases after with
  | answer => trivial
  | login row user code =>
    cases valid with
    | true => trivial
    | false =>
      simp only [answered, Bool.false_eq_true, if_false]
      split
      · rename_i listed
        exact List.mem_of_find?_eq_some listed
      · trivial

theorem known_verifyTotp {worker : Nat} {secret : String} {userId : Nat} {code : String}
    {purpose : Option String} {actor : Option Nat} {now : Int} {after : After} :
    (verifyTotp h cfg worker secret userId code purpose actor now after).Known c := by
  unfold verifyTotp
  split
  · trivial
  · exact known_answered false after

theorem known_getD {o : Option Pc} (each : ∀ q, o = some q → q.Known c) :
    (o.getD (.ended false)).Known c := by
  cases o with
  | none => trivial
  | some q => exact each q rfl

theorem does_login (known : p.Known c) (moved : proceedLogin h cfg c env p = some r) :
    Does c r := by
  cases p with
  | findingChallenge worker token code ip agent =>
    obtain rfl := Option.some.inj moved
    refine ⟨.same, known_getD ?_⟩
    intro q reached
    simp only [Option.bind_eq_bind, Option.bind_eq_some_iff] at reached
    obtain ⟨_, _, row, _, kept⟩ := reached
    split at kept
    · cases kept
    · obtain rfl := Option.some.inj kept
      trivial
  | loadingUser worker row code =>
    obtain rfl := Option.some.inj moved
    refine ⟨.same, known_getD ?_⟩
    intro q reached
    simp only [Option.bind_eq_bind, Option.bind_eq_some_iff] at reached
    obtain ⟨user, _, secret, _, kept⟩ := reached
    obtain rfl := Option.some.inj kept
    exact known_verifyTotp
  | burning row userId codes entry =>
    simp only [proceedLogin] at moved
    split at moved
    · rename_i current
      obtain rfl := Option.some.inj moved
      exact ⟨.backup known current fun _ => rfl, trivial⟩
    · obtain rfl := Option.some.inj moved
      exact ⟨.same, trivial⟩
  | countingAttempt id =>
    obtain rfl := Option.some.inj moved
    exact ⟨.attempt fun _ => rfl, trivial⟩
  | consuming id =>
    simp only [proceedLogin] at moved
    split at moved
    · rename_i consumed
      obtain rfl := Option.some.inj moved
      exact ⟨.challenge (fun _ => rfl) consumed, trivial⟩
    · obtain rfl := Option.some.inj moved
      exact ⟨.same, trivial⟩
  | _ => cases moved

theorem does_claim (known : p.Known c) (moved : proceedClaim h c env p = some r) :
    Does c r := by
  cases p with
  | claiming worker key timeStep after =>
    simp only [proceedClaim] at moved
    split at moved
    · split at moved
      · rename_i claimed
        obtain rfl := Option.some.inj moved
        exact ⟨.valkey (by simp) (Int.le_refl _) claimed, known_answered true after⟩
      · obtain rfl := Option.some.inj moved
        exact ⟨.same, known_answered false after⟩
    · obtain rfl := Option.some.inj moved
      refine ⟨.same, ?_⟩
      show c.now / 1000 * 1000 ≤ c.now
      omega
  | opening worker key timeStep since after =>
    simp only [proceedClaim] at moved
    split at moved
    · obtain rfl := Option.some.inj moved
      exact ⟨.same, known, Int.le_refl _⟩
    · obtain rfl := Option.some.inj moved
      exact ⟨.same, known⟩
  | freeing worker key timeStep since readAt after =>
    simp only [proceedClaim] at moved
    split at moved
    · obtain rfl := Option.some.inj moved
      refine ⟨.free ?_, known⟩
      intro e dropped
      simp only [Bool.and_eq_true, decide_eq_true_eq] at dropped
      exact Int.le_trans dropped.2 known.2
    · obtain rfl := Option.some.inj moved
      exact ⟨.same, known.1⟩
  | inserting worker key timeStep since readAt after =>
    simp only [proceedClaim] at moved
    split at moved
    · split at moved
      · rename_i claimed
        obtain rfl := Option.some.inj moved
        exact ⟨.replay (Int.le_refl _) claimed, known.2⟩
      · obtain rfl := Option.some.inj moved
        exact ⟨.same, known.2⟩
    · obtain rfl := Option.some.inj moved
      exact ⟨.same, known.1⟩
  | sweeping readAt claimed after =>
    obtain rfl := Option.some.inj moved
    refine ⟨?_, known_answered claimed after⟩
    show Effect c (if env.cleanup then _ else c)
    split
    · exact .free fun e dropped => Int.le_trans (of_decide_eq_true dropped) known
    · exact .same
  | marking worker key timeStep since after =>
    have live : (if env.cleanup then (c.usedCodes worker).delete fun e => e.expiresAt < since
        else c.usedCodes worker) =
        (c.usedCodes worker).delete fun e => env.cleanup && e.expiresAt < since := by
      cases env.cleanup with
      | true => simp
      | false => simp [Table.delete_of_none]
    have dead : ∀ e : Claim ReplayKey, (env.cleanup && decide (e.expiresAt < since)) = true →
        e.expiresAt * 1000 ≤ c.now := by
      intro e dropped
      have past := of_decide_eq_true (Bool.and_eq_true_iff.mp dropped).2
      have begun : since * 1000 ≤ c.now := known
      omega
    simp only [proceedClaim, live] at moved
    split at moved
    · rename_i claimed
      obtain rfl := Option.some.inj moved
      exact ⟨.process dead (by show _ ≤ (since + ttl) * 1000; omega) claimed,
        known_answered true after⟩
    · obtain rfl := Option.some.inj moved
      exact ⟨.expire dead, known_answered false after⟩
  | _ => cases moved

theorem does_ticket (moved : proceedTicket h c env p = some r) : Does c r := by
  cases p with
  | findingTicket id secret =>
    simp only [proceedTicket] at moved
    split at moved
    · split at moved
      all_goals
        obtain rfl := Option.some.inj moved
        exact ⟨.same, trivial⟩
    · obtain rfl := Option.some.inj moved
      exact ⟨.same, trivial⟩
  | takingTicket row =>
    simp only [proceedTicket] at moved
    split at moved
    · rename_i consumed
      obtain rfl := Option.some.inj moved
      exact ⟨.ticket (fun _ => rfl) consumed, trivial⟩
    · obtain rfl := Option.some.inj moved
      exact ⟨.same, trivial⟩
  | readingSession row =>
    obtain rfl := Option.some.inj moved
    exact ⟨.same, trivial⟩
  | _ => cases moved

theorem does_state (moved : proceedState h c env p = some r) : Does c r := by
  cases p with
  | cleaningStates token provider redirectUri =>
    obtain rfl := Option.some.inj moved
    refine ⟨?_, trivial⟩
    show Effect c (if env.cleanup then _ else c)
    split
    · exact .cleanup _
    · exact .same
  | findingState token provider redirectUri =>
    simp only [proceedState] at moved
    split at moved
    · split at moved
      all_goals
        obtain rfl := Option.some.inj moved
        exact ⟨.same, trivial⟩
    · obtain rfl := Option.some.inj moved
      exact ⟨.same, trivial⟩
  | takingState row =>
    simp only [proceedState] at moved
    split at moved
    · rename_i consumed
      obtain rfl := Option.some.inj moved
      exact ⟨.state (fun _ => rfl) consumed, trivial⟩
    · obtain rfl := Option.some.inj moved
      exact ⟨.same, trivial⟩
  | _ => cases moved

theorem does_next {a : Action} (known : p.Known c) (moved : next h cfg c p a = some r) :
    Does c r := by
  cases a with
  | start worker request =>
    cases p with
    | idle =>
      obtain rfl := Option.some.inj moved
      refine ⟨.same, ?_⟩
      cases request with
      | verifyTotp => exact known_verifyTotp
      | _ => trivial
    | _ => cases moved
  | proceed env =>
    rcases Option.or_eq_some_iff.mp moved with login | ⟨_, moved⟩
    · exact does_login known login
    rcases Option.or_eq_some_iff.mp moved with claim | ⟨_, moved⟩
    · exact does_claim known claim
    rcases Option.or_eq_some_iff.mp moved with ticket | ⟨_, state⟩
    · exact does_ticket ticket
    · exact does_state state
  | tick milliseconds =>
    obtain rfl := Option.some.inj moved
    exact ⟨.wait milliseconds, known.later (Effect.wait milliseconds).now_le⟩

end Statements

section Runs

variable {ι : Type} [DecidableEq ι]

def nothingTaken : Taken := ⟨[], [], [], [], []⟩

def Start (c₀ : Store) (s : State ι Store Pc) : Prop :=
  s.shared = c₀ ∧ c₀.taken = nothingTaken ∧ ∀ i, s.pc i = .idle

theorem Sound.start {c₀ : Store} (fresh : c₀.taken = nothingTaken) : Sound c₀ c₀ := by
  constructor
  all_goals rw [fresh]
  case challenges | tickets | states => exact Spent.nil
  case challenge | ticket | state => exact List.nodup_nil
  case backups => exact fun _ _ => Nat.zero_add _
  case valkey | replay => exact Barred.nil
  case usedCodes => exact fun _ => Barred.nil
  case totp => exact .nil

variable {h : Host} {cfg : OtpConfig} {c₀ : Store}

theorem sound_throughout {s : State ι Store Pc}
    (run : Reachable (step (next h cfg)) (Start c₀) s) :
    Holds (Sound c₀) (fun c p => p.Known c) (fun _ _ => True) s := by
  refine holds_throughout ?_ ?_ run
  · rintro s ⟨rfl, fresh, idle⟩
    refine ⟨.start fresh, ?_, fun _ _ _ => trivial⟩
    intro i
    rw [idle i]
    trivial
  · intro s i a r holds _ moved
    obtain ⟨effect, known⟩ := does_next (holds.each i) moved
    exact ⟨holds.shared.effect effect, known,
      fun j _ => ⟨(holds.each j).later effect.now_le, trivial, trivial⟩⟩

structure Once (c₀ c : Store) : Prop where
  challenge : c.taken.challenges.Nodup
  ticket : c.taken.tickets.Nodup
  state : c.taken.states.Nodup
  /-- What is missing of a backup code has been taken. -/
  backup : ∀ userId code,
    c.taken.backups.count (userId, code) + c.left userId code = c₀.left userId code
  totp : c.taken.totp.Pairwise Apart

theorem taken_once {s : State ι Store Pc}
    (run : Reachable (step (next h cfg)) (Start c₀) s) : Once c₀ s.shared := by
  have sound := (sound_throughout run).shared
  exact ⟨sound.challenge, sound.ticket, sound.state, sound.backups, sound.totp⟩

end Runs

section Example

def plainHost : Host where
  verifyTokenHash secret hash := secret = hash
  sha256 := id
  lower := id
  isDigits := fun _ => true
  ipIndex := some
  uaIndex agent := some (some agent)
  otp _ timeStep := if timeStep = 3 then "123456" else "654321"
  nfkc := id

def plainStore : Store where
  challenges := ⟨[⟨10, 1, "token", none, none, 200000, false, 0⟩], by decide⟩
  users := ⟨[⟨1, some "secret", some [⟨none, "code"⟩]⟩], by decide⟩
  tickets := Table.empty
  states := Table.empty
  valkey := Table.empty
  replay := Table.empty
  usedCodes := fun _ => Table.empty
  now := 100000
  taken := nothingTaken

def env : Env := ⟨false, true, true, false, true⟩

/-- Two logins with one challenge and one backup code, one of which succeeds. -/
theorem taken_once_backup : ∃ s : State Bool Store Pc,
    Reachable (step (next plainHost ⟨30, 5⟩)) (Start plainStore) s ∧
    s.pc true = .ended true ∧ s.pc false = .ended false ∧ Once plainStore s.shared := by
  let request := Request.completeTwoFactor (some (10, "token")) "co-de" none none
  let idle : State Bool Store Pc := ⟨plainStore, fun _ => .idle⟩
  have run := @reachable_of_run _ _ (step (next plainHost ⟨30, 5⟩)) (Start plainStore) idle _
    [(true, .start 1 request), (false, .start 2 request), (true, .proceed env),
      (false, .proceed env), (true, .proceed env), (false, .proceed env), (true, .proceed env),
      (false, .proceed env), (false, .proceed env), (true, .proceed env)]
    ⟨rfl, rfl, fun _ => rfl⟩ rfl
  exact ⟨_, run, rfl, rfl, taken_once run⟩

/-- A time step taken for two purposes. -/
theorem step_taken_twice : ¬ ∀ (h : Host) (cfg : OtpConfig) (c₀ : Store) (s : State Bool Store Pc),
    Reachable (step (next h cfg)) (Start c₀) s → s.shared.taken.totp.Pairwise fun later before =>
      (later.key.userId, later.timeStep) ≠ (before.key.userId, before.timeStep) := by
  intro h
  let idle : State Bool Store Pc := ⟨plainStore, fun _ => .idle⟩
  have both := @reachable_of_run _ _ (step (next plainHost ⟨30, 5⟩)) (Start plainStore) idle _
    [(true, .start 1 (.verifyTotp "secret" 1 "123456" (some "login") none)),
      (true, .proceed env),
      (false, .start 1 (.verifyTotp "secret" 1 "123456" (some "disable_2fa") none)),
      (false, .proceed env)] ⟨rfl, rfl, fun _ => rfl⟩ rfl
  have apart := h _ _ _ _ both
  exact absurd apart (by decide)

end Example

end Plexichat.Auth.OneTime
