import CrudBackend.Logging
import CrudBackend.Main
import CrudBackend.Proofs.Acceptance
import CrudBackend.Proofs.Attributes
import CrudBackend.Proofs.Authorization
import CrudBackend.Proofs.Cleaning.Exactness
import CrudBackend.Proofs.DerivedNames
import CrudBackend.Proofs.DocumentForms
import CrudBackend.Proofs.EntityOrder
import CrudBackend.Proofs.EnumModule
import CrudBackend.Proofs.EnumOrigins
import CrudBackend.Proofs.Extensions
import CrudBackend.Proofs.Foresight
import CrudBackend.Proofs.FreeText
import CrudBackend.Proofs.Handlers
import CrudBackend.Proofs.History
import CrudBackend.Proofs.ImportPaths
import CrudBackend.Proofs.ImportTargets
import CrudBackend.Proofs.Marking
import CrudBackend.Proofs.Mounts
import CrudBackend.Proofs.Protection
import CrudBackend.Proofs.Python.Defaults
import CrudBackend.Proofs.QueryOrder
import CrudBackend.Proofs.Regeneration
import CrudBackend.Proofs.Replacement
import CrudBackend.Proofs.Reservation
import CrudBackend.Proofs.Settings
import CrudBackend.Proofs.SnakeCase
import CrudBackend.Proofs.TypeTags
import CrudBackend.Proofs.Untouched
import CrudBackend.Proofs.Wiring
