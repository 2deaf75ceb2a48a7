/-!
Permissions are texts of scopes that are separated by colons. The generated backend carries this
rule, and hosts call it from their guards: a caller is allowed by the permission itself, by a
wildcard for any leading run of its scopes, or by the bare wildcard.
-/

namespace CrudBackend.Permission

def adminRole : String := "ADMIN"

def wildcard : String := "*"

def separator : Char := ':'

def scopes (permission : String) : List (List Char) := permission.toList.splitOn separator

def below (run : List (List Char)) : String :=
  String.ofList ([separator].intercalate run) ++ String.singleton separator ++ wildcard

/-- The wildcards for the leading runs of the scopes of a permission, the longest first. -/
def wildcardsFor (permission : String) : List String :=
  let parts := scopes permission
  ((List.range' 1 parts.length).reverse).map fun i => below (parts.take i)

def satisfies (owned : List String) (required : String) : Bool :=
  owned.contains required || owned.contains wildcard ||
    (wildcardsFor required).any fun w => owned.contains w

/-- A caller with these roles and permissions may use what needs all the required ones. -/
def isPermitted (required roles owned : List String) : Bool :=
  roles.contains adminRole || required.all (satisfies owned)

end CrudBackend.Permission
