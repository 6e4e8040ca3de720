import EventSourcing.View

/-!
# Members of an organisation

A view of one membership: the organisation, the user and the user's roles.
-/

namespace EventSourcing

/-- What an event may overwrite in a membership. -/
structure MemberPatch where
  userId : Option String
  roles : Option (List String)
deriving DecidableEq, Repr

namespace MemberPatch

/-- The fields of a member patch, each of which may be missing. -/
def record : Json.Record where
  name := "MemberPatch"
  fields := [.of "userId" (Json.nullable Json.text),
    .of "roles" (Json.nullable (Json.listOf Json.text))]

/-- The patch that a payload stands for. -/
def ofJson (v : Json) : Except ShapeError MemberPatch := do
  let ms ← record.members v
  let userId ← Json.optional Json.text ms "userId"
  let roles ← Json.optional (Json.listOf Json.text) ms "roles"
  return ⟨userId, roles⟩

/-- The payload of a patch, with `null` for what it leaves alone. -/
def toJson (p : MemberPatch) : Json :=
  .obj [("roles", Json.ofOption (fun l => .arr (l.map .str)) p.roles),
    ("userId", Json.ofOption .str p.userId)]

instance : OfPayload MemberPatch := ⟨ofJson⟩

end MemberPatch

/-- A view of one membership. -/
structure MemberView where
  watermark : Watermark := {}
  orgId : String := ""
  userId : String := ""
  roles : List String := []
deriving DecidableEq, Inhabited

namespace MemberView

/-- How a member reacts: it is created once and changed any number of times. -/
def action : EventType → ViewAction
  | "org.member.added" => .create
  | "org.member.changed" => .change
  | _ => .ignore

/-- Overwrites what the patch gives. -/
def patch (p : MemberPatch) (v : MemberView) : MemberView :=
  { v with userId := p.userId.getD v.userId, roles := p.roles.getD v.roles }

instance : View MemberView MemberPatch where
  watermark := watermark
  setWatermark w v := { v with watermark := w }
  action _ := action
  bindRoot e v := { v with orgId := e.aggregate.id }
  applyPatch := patch

end MemberView

end EventSourcing
