import Plexichat.Library.Interleaving
import Plexichat.Servers.Operations

/-! handlers/member_handler.py once more: add_member, use_invite and ban_member, one
database statement at a time. get_member may answer from its cache, which never
holds None. The two tables it is checked against by FOREIGN KEY are srv_members and
srv_roles. -/
namespace Plexichat.Servers.Joins
open Checks Interleaving

structure Store where
  now : Nat
  /-- `_generate_id` never gives an id twice. -/
  nextId : Nat
  /-- The engine names a violated UNIQUE key in the exception. -/
  postgres : Bool
  db : Database

inductive Raised where
  | error (e : ServerError)
  | assertion

/-- The arguments of `add_member`, with the invite whose use the caller has taken. -/
structure Join where
  serverId : Nat
  userId : Nat
  inviterId : Option Nat
  temporary : Bool
  via : Option String

/-- The next statement of `add_member`. -/
inductive JoinStage where
  | checkBan | getMember | checkServer | insert | duplicate
  | defaultRole (memberId : Nat)
  | grant (memberId roleId : Nat)
  | result (memberId : Nat)

structure BanCall where
  userId : Nat
  serverId : Nat
  memberUserId : Nat
  isOwner : Bool

/-- The next statement of `ban_member`, once the actor is authorised. -/
inductive BanStage where
  | checkBan | getMember
  | rank (member : Member)
  | deleteRoles (member : Member)
  | deleteMember | insert

inductive Pc where
  | idle
  | invited (userId : Nat) (invite : InviteRow)
  | claiming (userId now : Nat) (invite : InviteRow)
  | refused (now : Nat) (code : String)
  | joining (j : Join) (stage : JoinStage)
  | givingBack (code : String) (memberId : Option Nat) (e : Raised)
  | authorising (userId serverId memberUserId deleteMessageDays : Nat)
  | banning (b : BanCall) (stage : BanStage)
  | ended (via : Option String) (memberId : Option Nat) (result : Except Raised PUnit)

inductive Action where
  | tick (ms : Nat)
  /-- The UPDATE of `delete_invite`. -/
  | revoke (code : String)
  | useInvite (userId : Nat) (code : String)
  | addMember (serverId userId : Nat) (inviterId : Option Nat) (temporary : Bool)
  | banMember (userId serverId memberUserId deleteMessageDays : Nat)
  /-- The next statement; the caches answer with `cached` and `rd`. -/
  | proceed (cached : Option Member) (rd : Reader)

def fail (name : ErrorName) (message : String) : Raised := .error ⟨name, message⟩

/-- `add_member` raises; `use_invite` catches it and gives the use back. -/
def Join.fails (j : Join) (memberId : Option Nat) (e : Raised) : Pc :=
  match j.via with
  | some code => .givingBack code memberId e
  | none => .ended none memberId (.error e)

/-- The SELECT that `use_invite` starts with. -/
def openInvite (db : Database) (userId : Nat) (code : String) : Pc :=
  match (db.invites.find code).filter fun i => !i.revoked with
  | some invite => .invited userId invite
  | none => .ended none none (.error (fail .inviteNotFound "Invite not found"))

def checkInvite (now userId : Nat) (invite : InviteRow) : Pc :=
  if !invite.expiresAt.all fun t => now < t then
    .ended none none (.error (fail .inviteExpired "Invite has expired"))
  else if invite.maxUses > 0 && invite.maxUses ≤ invite.uses then
    .ended none none (.error (fail .inviteMaxUses "Invite has reached maximum uses"))
  else .claiming userId now invite

def claimable (now : Nat) (i : InviteRow) : Bool :=
  !i.revoked && (i.expiresAt.all fun t => now < t) && (i.maxUses = 0 || i.uses < i.maxUses)

def claimUse (c : Store) (userId now : Nat) (invite : InviteRow) : Store × Pc :=
  if (c.db.invites.find invite.code).any (claimable now) then
    ({ c with db := c.db.updateUses invite.code (· + 1) },
      .joining ⟨invite.serverId, userId, some invite.inviterId, invite.temporary,
        some invite.code⟩ .checkBan)
  else (c, .refused now invite.code)

/-- Why the UPDATE found no row. -/
def refusal (db : Database) (now : Nat) (code : String) : Raised :=
  match (db.invites.find code).filter fun i => !i.revoked with
  | none => fail .inviteNotFound "Invite not found"
  | some i =>
    if i.expiresAt.all fun t => now < t then
      fail .inviteMaxUses "Invite has reached maximum uses"
    else fail .inviteExpired "Invite has expired"

def giveBack (db : Database) (code : String) : Database :=
  db.updateUses code fun uses => if 0 < uses then uses - 1 else 0

def lookup (db : Database) (cached : Option Member) (serverId userId : Nat) : Option Member :=
  cached.or (db.getMember serverId userId)

def grantRole (db : Database) (a : MemberRole) : Outcome Database := do
  ensure ((db.members.find a.memberId).isSome = true ∧ (db.roles.find a.roleId).isSome = true)
    ⟨.integrity, "FOREIGN KEY constraint failed"⟩
  db.insertMemberRole a

def joinNext (c : Store) (cached : Option Member) (j : Join) : JoinStage → Store × Pc
  | .checkBan =>
    (c, if c.db.isBanned j.serverId j.userId then
      j.fails none (fail .userBanned "User is banned from this server")
    else .joining j .getMember)
  | .getMember =>
    (c, if (lookup c.db cached j.serverId j.userId).isSome then
      j.fails none (fail .memberExists "User is already a member of this server")
    else .joining j .checkServer)
  | .checkServer =>
    (c, if (c.db.liveServer j.serverId).isSome then .joining j .insert
    else j.fails none (fail .serverNotFound "Server not found"))
  | .insert =>
    if c.db.isMember j.serverId j.userId then
      (c, if c.postgres then .joining j .duplicate
      else j.fails none (fail .integrity
        "UNIQUE constraint failed: srv_members.server_id, srv_members.user_id"))
    else
      match c.db.insertMember (plainMember c.nextId j.serverId j.userId j.inviterId j.temporary) with
      | .ok db => ({ c with db, nextId := c.nextId + 1 }, .joining j (.defaultRole c.nextId))
      | .error e => (c, j.fails none (.error e))
  -- somebody else has inserted the row, which will do
  | .duplicate =>
    (c, if (lookup c.db cached j.serverId j.userId).isSome then .ended j.via none (.ok ⟨⟩)
    else j.fails none (fail .integrity
      "UNIQUE constraint failed: srv_members.server_id, srv_members.user_id"))
  | .defaultRole memberId =>
    (c, match c.db.defaultRole j.serverId with
      | some role => .joining j (.grant memberId role.id)
      | none => .joining j (.result memberId))
  | .grant memberId roleId =>
    match grantRole c.db ⟨memberId, roleId⟩ with
    | .ok db => ({ c with db }, .joining j (.result memberId))
    | .error e => (c, j.fails (some memberId) (.error e))
  | .result memberId =>
    (c, if (lookup c.db cached j.serverId j.userId).isSome then
      .ended j.via (some memberId) (.ok ⟨⟩)
    else j.fails (some memberId) .assertion)

/-- The checks of `ban_member` before it looks at the target's rows. -/
def authorise (rd : Reader) (db : Database) (userId serverId memberUserId deleteMessageDays : Nat) :
    Outcome BanCall := do
  let server ← found (db.getServer serverId userId)
    ⟨.permissionDenied, "Not a member of this server"⟩
  ensure (deleteMessageDays = 0) ⟨.banPurgeNotSupported,
    "delete_message_days (message purge on ban) is not supported; pass 0"⟩
  ensure (server.ownerId ≠ memberUserId) ⟨.cannotModifyOwner, "Cannot ban the server owner"⟩
  rd.requirePermission userId serverId "members.ban" 0
  return ⟨userId, serverId, memberUserId, server.ownerId = userId⟩

def referenced (db : Database) (serverId userId : Nat) : Bool :=
  (db.memberRow serverId userId).any fun m => db.memberRoles.rows.any fun a => a.memberId = m.id

def raise (e : ServerError) : Pc := .ended none none (.error (.error e))

def banNext (c : Store) (cached : Option Member) (rd : Reader) (b : BanCall) :
    BanStage → Store × Pc
  | .checkBan =>
    (c, if c.db.isBanned b.serverId b.memberUserId then
      raise ⟨.banExists, "User is already banned"⟩
    else .banning b .getMember)
  | .getMember =>
    (c, match lookup c.db cached b.serverId b.memberUserId with
      | some member => .banning b (.rank member)
      | none => .banning b .insert)
  | .rank member =>
    (c, if canManageMember (rd.roleRows c.db b.serverId b.userId)
        (rd.roleRows c.db b.serverId b.memberUserId) b.isOwner false then
      .banning b (.deleteRoles member)
    else raise ⟨.roleHierarchy, "Cannot ban a member with equal or higher role"⟩)
  | .deleteRoles member =>
    ({ c with db := c.db.deleteMemberRoles member.id }, .banning b .deleteMember)
  | .deleteMember =>
    if referenced c.db b.serverId b.memberUserId then
      (c, raise ⟨.integrity, "FOREIGN KEY constraint failed"⟩)
    else
      ({ c with db := c.db.deleteMember b.serverId b.memberUserId }, .banning b .insert)
  | .insert =>
    match c.db.insertBan ⟨b.serverId, b.memberUserId, b.userId⟩ with
    | .ok db => ({ c with db }, .ended none none (.ok ⟨⟩))
    | .error e => (c, raise e)

def proceed (c : Store) (cached : Option Member) (rd : Reader) : Pc → Option (Store × Pc)
  | .invited userId invite => some (c, checkInvite c.now userId invite)
  | .claiming userId now invite => some (claimUse c userId now invite)
  | .refused now code => some (c, .ended none none (.error (refusal c.db now code)))
  | .joining j stage => some (joinNext c cached j stage)
  | .givingBack code memberId e =>
    some ({ c with db := giveBack c.db code }, .ended (some code) memberId (.error e))
  | .authorising userId serverId memberUserId deleteMessageDays =>
    some (c, match authorise rd c.db userId serverId memberUserId deleteMessageDays with
      | .ok b => .banning b .checkBan
      | .error e => raise e)
  | .banning b stage => some (banNext c cached rd b stage)
  | .idle => none
  | .ended _ _ _ => none

def revoke (db : Database) (code : String) : Database :=
  { db with
    invites := db.invites.update (fun i => i.code = code && !i.revoked)
      (fun i => { i with revoked := true }) revoked_code_kept }

def start (c : Store) : Action → Option Pc
  | .useInvite userId code => some (openInvite c.db userId code)
  | .addMember serverId userId inviterId temporary =>
    some (.joining ⟨serverId, userId, inviterId, temporary, none⟩ .checkBan)
  | .banMember userId serverId memberUserId deleteMessageDays =>
    some (.authorising userId serverId memberUserId deleteMessageDays)
  | _ => none

def next (c : Store) (p : Pc) : Action → Option (Store × Pc)
  | .tick ms => some ({ c with now := c.now + ms }, p)
  | .revoke code => some ({ c with db := revoke c.db code }, p)
  | .proceed cached rd => proceed c cached rd p
  | a =>
    match p with
    | .idle => (start c a).map fun p => (c, p)
    | _ => none

theorem insertMember_ok {db db' : Database} {m : MemberRow} (h : db.insertMember m = .ok db') :
    ∃ members, db.members.insert m = some members ∧ db' = { db with members } := by
  simp only [Database.insertMember, found_bind_eq_ok, pure_eq_ok] at h
  obtain ⟨members, inserted, same⟩ := h
  exact ⟨members, inserted, same.symm⟩

theorem insertBan_ok {db db' : Database} {b : BanRow} (h : db.insertBan b = .ok db') :
    ∃ bans, db.bans.insert b = some bans ∧ db' = { db with bans } := by
  simp only [Database.insertBan, found_bind_eq_ok, pure_eq_ok] at h
  obtain ⟨bans, inserted, same⟩ := h
  exact ⟨bans, inserted, same.symm⟩

theorem grantRole_ok {db db' : Database} {a : MemberRole} (h : grantRole db a = .ok db') :
    ∃ memberRoles, db.memberRoles.insert a = some memberRoles ∧ db' = { db with memberRoles } := by
  simp only [grantRole, ensure_bind_eq_ok, Database.insertMemberRole, found_bind_eq_ok,
    pure_eq_ok] at h
  obtain ⟨_, memberRoles, inserted, same⟩ := h
  exact ⟨memberRoles, inserted, same.symm⟩

theorem grantRole_error {db : Database} {a : MemberRole} {e : ServerError}
    (h : grantRole db a = .error e) :
    db.members.find a.memberId = none ∨ db.roles.find a.roleId = none ∨
      (db.memberRoles.find a).isSome = true := by
  by_cases refers : (db.members.find a.memberId).isSome = true ∧ (db.roles.find a.roleId).isSome = true
  · refine .inr (.inr ?_)
    cases there : db.memberRoles.find a with
    | some row => rfl
    | none =>
      obtain ⟨memberRoles, inserted⟩ := Table.insert_of_fresh there
      simp only [grantRole, ensure, if_pos refers, Database.insertMemberRole, inserted] at h
      cases h
  · rw [not_and_or] at refers
    cases refers with
    | inl member => exact .inl (Option.not_isSome_iff_eq_none.mp member)
    | inr role => exact .inr (.inl (Option.not_isSome_iff_eq_none.mp role))

theorem isMember_iff {db : Database} {serverId userId : Nat} :
    db.isMember serverId userId = true ↔
      ∃ m ∈ db.members, m.serverId = serverId ∧ m.userId = userId := by
  simp [Database.isMember, Database.memberRow, Table.mem_rows]

theorem lookup_eq_none {db : Database} {cached : Option Member} {serverId userId : Nat}
    (h : lookup db cached serverId userId = none) : db.isMember serverId userId = false := by
  have absent := (Option.or_eq_none_iff.mp h).2
  rw [Database.isMember, Option.map_eq_none_iff.mp absent]
  rfl

def Pc.resting : Pc → Bool
  | .idle => true
  | .ended _ _ _ => true
  | _ => false

def Idle {ι : Type} (s : State ι Store Pc) : Prop := ∀ i, s.pc i = .idle

def oneServer : Database :=
  { Database.empty with
    servers := ⟨[⟨100, "home", 7, false⟩], by decide⟩
    roles := ⟨[⟨300, 100, "@everyone", defaultEveryonePermissions, 0, true, false⟩], by decide⟩
    members := ⟨[plainMember 1 100 7 none false], by decide⟩
    invites := ⟨[⟨"in", 100, 7, 1, 0, false, none, false⟩], by decide⟩ }

def twoCalls : State Bool Store Pc := ⟨⟨0, 2, false, oneServer⟩, fun _ => .idle⟩

def proceeds (i : Bool) : Bool × Action := (i, .proceed none (oneServer.reader 0))

end Plexichat.Servers.Joins
