import EventPipeline.Dict
/-!
# Members of an event

An event has fifty members. Each has a name, which is its key in a JSON document,
a number, which is its tag in a protobuf message, and a kind, which fixes its
values. Members are numbered from 1 in the order in which they are listed here;
`ofTag?_tag` and `ofName?_name` say that number and name determine the member.
See the specification, 3.
-/
namespace EventPipeline

/-- A member of an event. -/
inductive Member
  | eventId | event | eventTime | loggedTime | actionType | appType | appVersion | appChannel
  | env | platform | os | osVersion | deviceBrand | deviceModel | deviceVendor | screenWidth
  | screenHeight | screenSize | screenResolution | carrier | network | udid | tkid | mid | imei
  | idfa | oaid | androidId | mac | sessionId | pvId | pageId | pageKey | moduleId | layoutId
  | refPvId | refPageId | refPageKey | refModuleId | refLayoutId | duration | lat | lon | ip
  | ipCountry | ipProvince | ipCity | userAgent | referer | extendInfo
deriving DecidableEq

/-- What a member holds: a text, a number of 32 or 64 bits, or named properties. -/
inductive Kind
  | text | int32 | int64 | properties
deriving DecidableEq

/-- Free-form properties: texts by name, listed in name order. -/
abbrev Properties := Dict String String

/-- The values of a kind. -/
@[reducible] def Kind.Value : Kind → Type
  | .text => String
  | .int32 => Int32
  | .int64 => Int64
  | .properties => Properties

/-- The value of a member that was not given. -/
def Kind.default : (k : Kind) → k.Value
  | .text => ""
  | .int32 => 0
  | .int64 => 0
  | .properties => .empty

instance : (k : Kind) → DecidableEq k.Value
  | .text => inferInstanceAs (DecidableEq String)
  | .int32 => inferInstanceAs (DecidableEq Int32)
  | .int64 => inferInstanceAs (DecidableEq Int64)
  | .properties => inferInstanceAs (DecidableEq Properties)

namespace Member

/-- All members, in the order of their numbers. -/
def all : List Member :=
  [.eventId, .event, .eventTime, .loggedTime, .actionType, .appType, .appVersion, .appChannel,
   .env, .platform, .os, .osVersion, .deviceBrand, .deviceModel, .deviceVendor, .screenWidth,
   .screenHeight, .screenSize, .screenResolution, .carrier, .network, .udid, .tkid, .mid, .imei,
   .idfa, .oaid, .androidId, .mac, .sessionId, .pvId, .pageId, .pageKey, .moduleId, .layoutId,
   .refPvId, .refPageId, .refPageKey, .refModuleId, .refLayoutId, .duration, .lat, .lon, .ip,
   .ipCountry, .ipProvince, .ipCity, .userAgent, .referer, .extendInfo]

/-- The kind of a member's value. -/
@[reducible] def kind : Member → Kind
  | .eventTime | .loggedTime | .duration => .int64
  | .screenWidth | .screenHeight | .carrier | .network => .int32
  | .extendInfo => .properties
  | _ => .text

/-- The name of a member. -/
def name : Member → String
  | .eventId => "event_id"
  | .event => "event"
  | .eventTime => "event_time"
  | .loggedTime => "logged_time"
  | .actionType => "action_type"
  | .appType => "app_type"
  | .appVersion => "app_version"
  | .appChannel => "app_channel"
  | .env => "env"
  | .platform => "platform"
  | .os => "os"
  | .osVersion => "os_version"
  | .deviceBrand => "device_brand"
  | .deviceModel => "device_model"
  | .deviceVendor => "device_vendor"
  | .screenWidth => "screen_width"
  | .screenHeight => "screen_height"
  | .screenSize => "screen_size"
  | .screenResolution => "screen_resolution"
  | .carrier => "carrier"
  | .network => "network"
  | .udid => "udid"
  | .tkid => "tkid"
  | .mid => "mid"
  | .imei => "imei"
  | .idfa => "idfa"
  | .oaid => "oaid"
  | .androidId => "android_id"
  | .mac => "mac"
  | .sessionId => "session_id"
  | .pvId => "pv_id"
  | .pageId => "page_id"
  | .pageKey => "page_key"
  | .moduleId => "module_id"
  | .layoutId => "layout_id"
  | .refPvId => "ref_pv_id"
  | .refPageId => "ref_page_id"
  | .refPageKey => "ref_page_key"
  | .refModuleId => "ref_module_id"
  | .refLayoutId => "ref_layout_id"
  | .duration => "duration"
  | .lat => "lat"
  | .lon => "lon"
  | .ip => "ip"
  | .ipCountry => "ip_country"
  | .ipProvince => "ip_province"
  | .ipCity => "ip_city"
  | .userAgent => "user_agent"
  | .referer => "referer"
  | .extendInfo => "extend_info"

/-- The number of a member. -/
def tag (m : Member) : Nat := m.ctorIdx + 1

/-- The member with the given number. -/
def ofTag? : Nat → Option Member
  | 0 => none
  | n + 1 => all[n]?

/-- The member with the given name. -/
def ofName? (s : String) : Option Member := all.find? (fun m => m.name = s)

@[simp] theorem mem_all (m : Member) : m ∈ all := by cases m <;> decide

@[simp] theorem ofTag?_tag (m : Member) : ofTag? m.tag = some m := by cases m <;> rfl

theorem name_injective {m n : Member} (h : m.name = n.name) : m = n := by
  have : ∀ m ∈ all, ∀ n ∈ all, m.name = n.name → m = n := by decide +kernel
  exact this m (mem_all m) n (mem_all n) h

@[simp] theorem ofName?_name (m : Member) : ofName? m.name = some m := by
  unfold ofName?
  obtain ⟨n, hn⟩ : ∃ n, all.find? (fun n => n.name = m.name) = some n := by
    rw [← Option.isSome_iff_exists, List.find?_isSome]
    exact ⟨m, mem_all m, by simp⟩
  have he : n.name = m.name := by simpa using List.find?_some hn
  rw [hn, name_injective he]

end Member

end EventPipeline
