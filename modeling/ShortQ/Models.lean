import ShortQ.GoTime

/-! # The records of package models -/
namespace Models

open GoText (Str)
open GoTime (Time)

inductive Role where
  | superadmin | tenant | customer
  deriving DecidableEq, Repr

structure User where
  id : ℤ
  tenantId : Option ℤ
  role : Role
  deriving DecidableEq, Repr

structure GeoTarget where
  countryCode : Str
  targetUrl : Str
  deriving DecidableEq, Repr

structure Link where
  id : ℤ := 0
  userId : ℤ := 0
  tenantId : Option ℤ := none
  slug : Str := []
  targetUrl : Str := []
  title : Str := []
  visibility : Str := []
  clicks : ℤ := 0
  redirectCode : ℤ := 0
  expiresAt : Option Time := none
  maxClicks : Option ℤ := none
  expiredUrl : Str := []
  iosUrl : Str := []
  androidUrl : Str := []
  forwardQuery : Bool := false
  utmSource : Str := []
  utmMedium : Str := []
  utmCampaign : Str := []
  utmTerm : Str := []
  utmContent : Str := []
  tags : List Str := []
  geoTargets : List GeoTarget := []
  passwordProtected : Bool := false
  passwordHash : Str := []
  createdAt : Time := GoTime.zero
  deletedAt : Option Time := none
  deriving DecidableEq, Repr

structure ClickEvent where
  id : ℤ := 0
  eventId : Str := []
  linkId : ℤ := 0
  slug : Str := []
  ip : Str := []
  countryCode : Str := []
  method : Str := []
  statusCode : ℤ := 0
  resolvedUrl : Str := []
  routeType : Str := []
  userAgent : Str := []
  browser : Str := []
  os : Str := []
  device : Str := []
  isBot : Bool := false
  referrer : Str := []
  referrerHost : Str := []
  utmSource : Str := []
  utmMedium : Str := []
  utmCampaign : Str := []
  occurredAt : Time := GoTime.zero
  increment : Bool := false
  createdAt : Time := GoTime.zero
  deriving DecidableEq, Repr

end Models
